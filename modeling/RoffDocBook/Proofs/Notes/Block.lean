import RoffDocBook.Document.Name
import RoffDocBook.Proofs.Hints.Table
import RoffDocBook.Proofs.Place.Ahead
import RoffDocBook.Proofs.Place.Reading

/-! What a document notes while it is converted: complaints about the source and hints for its tokens. Both only grow,
whatever is written and read, and lines that have their number in the source are taken in order. -/
namespace RoffDocBook
open Text Markup

/-- The lines in an input that have their number in the source. -/
def Input.numbered : Input → List (Text × Nat)
  | [] => []
  | .line text (some number) :: rest => (text, number) :: numbered rest
  | _ :: rest => numbered rest

namespace Input

theorem numbered_append (first second : Input) : (first ++ second).numbered = first.numbered ++ second.numbered := by
  fun_induction numbered first with
  | case1 => rfl
  | case2 text number rest ih => exact congrArg ((text, number) :: ·) ih
  | case3 item rest hitem ih =>
    rw [List.cons_append, numbered]
    · exact ih
    · exact hitem

/-- Lines that are put back have no number. -/
@[simp] theorem numbered_pushLines (input : Input) (lines : List Text) :
    (input.pushLines lines).numbered = input.numbered := by
  induction lines with
  | nil => rfl
  | cons line lines ih => exact ih

end Input

namespace Document

/-- The second document comes from the first by writing and reading. Complaints are added to those that were there, under
the name of the same file; hints are added for tokens of the document that had none; numbered lines are taken from the
front. Where reading stands still, the line at hand stays the same. -/
structure Notes (still : Bool) (base doc : Document) : Prop where
  line : still = true → doc.line = base.line
  numbered : doc.input.numbered <:+ base.input.numbered
  learned : base.hints.Learns doc.hints
  file : doc.diagnostics.file = base.diagnostics.file
  raised : ∃ raised, doc.diagnostics.entries = base.diagnostics.entries ++ raised ∧
    ∀ diagnostic ∈ raised, diagnostic.file = base.diagnostics.file

/-- What notes are told by. -/
def account (doc : Document) : Nat × Input × Hints × Diagnostics :=
  (doc.line, doc.input, doc.hints, doc.diagnostics)

namespace Notes
variable {still : Bool} {base a b doc : Document}

/-- A change to the input that puts back no numbered line. -/
theorem of_input (hline : still = true → doc.line = base.line) (hinput : doc.input.numbered <:+ base.input.numbered)
    (hhints : doc.hints = base.hints) (hdiagnostics : doc.diagnostics = base.diagnostics) : Notes still base doc where
  line := hline
  numbered := hinput
  learned := hhints ▸ .refl _
  file := by rw [hdiagnostics]
  raised := ⟨[], by rw [hdiagnostics, List.append_nil], by simp⟩

theorem of_account (h : doc.account = base.account) : Notes still base doc := by
  obtain ⟨hline, hinput, hhints, hdiagnostics⟩ : _ ∧ _ ∧ _ ∧ _ := by simpa only [account, Prod.mk.injEq] using h
  exact of_input (fun _ => hline) (hinput ▸ List.suffix_refl _) hhints hdiagnostics

theorem refl : Notes still base base :=
  of_account rfl

theorem trans (h : Notes still base a) (k : Notes still a b) : Notes still base b := by
  obtain ⟨raised, hraised, hfile⟩ := h.raised
  obtain ⟨more, hmore, hfile'⟩ := k.raised
  refine ⟨fun hs => (k.line hs).trans (h.line hs), k.numbered.trans h.numbered, h.learned.trans k.learned,
    k.file.trans h.file, raised ++ more, ?_, ?_⟩
  · rw [hmore, hraised, List.append_assoc]
  · intro diagnostic hd
    rcases List.mem_append.mp hd with hd | hd
    · exact hfile diagnostic hd
    · exact (hfile' diagnostic hd).trans h.file

/-- No complaint is taken back. -/
theorem mem_entries (h : Notes still base doc) {diagnostic : Diagnostic}
    (hd : diagnostic ∈ base.diagnostics.entries) : diagnostic ∈ doc.diagnostics.entries := by
  obtain ⟨raised, hraised, -⟩ := h.raised
  exact hraised ▸ List.mem_append_left _ hd

/-- A change to nothing that notes are told by. -/
theorem same (h : Notes still base a) (hb : b.account = a.account) : Notes still base b :=
  h.trans (of_account hb)

theorem ite {c : Prop} [Decidable c] (ha : Notes still base a) (hb : Notes still base b) :
    Notes still base (if c then a else b) := by
  split
  · exact ha
  · exact hb

theorem foldl {α : Type} {f : Document → α → Document}
    (hf : ∀ {doc} a, Notes still base doc → Notes still base (f doc a))
    (h : Notes still base doc) (l : List α) : Notes still base (l.foldl f doc) := by
  induction l generalizing doc with
  | nil => exact h
  | cons a l ih => exact ih (hf a h)

/-- Reading on leaves all but the place. -/
theorem reads (h : Notes false base a) (hr : Reads a b) (he : Elsewhere a b) : Notes false base b := by
  obtain ⟨passed, hpassed, -⟩ := hr
  have hnumbered : b.input.numbered <:+ a.input.numbered := by
    rw [hpassed, Input.numbered_append]
    exact List.suffix_append _ _
  obtain ⟨input, line, invocations, rfl⟩ := he
  exact h.trans (of_input (fun hs => by cases hs) hnumbered rfl rfl)

/-- Complaints are raised under the name of the file. -/
theorem raise (h : Notes still base doc) (severity : Severity) (line : Nat) (expanding : Option String)
    (message : String) :
    Notes still base { doc with diagnostics := doc.diagnostics.raise severity line expanding message } :=
  h.trans
    { line := fun _ => rfl
      numbered := List.suffix_refl _
      learned := .refl _
      file := rfl
      raised := ⟨[_], rfl, by simp⟩ }

theorem warn (h : Notes still base doc) (complaint : Complaint) : Notes still base (doc.warn complaint) :=
  h.raise _ _ _ _

theorem error (h : Notes still base doc) (complaint : Complaint) : Notes still base (doc.error complaint) :=
  h.raise _ _ _ _

theorem remark (h : Notes still base doc) (complaint : Complaint) : Notes still base (doc.remark complaint) := by
  unfold Document.remark Diagnostics.remark
  split
  · exact h.raise _ _ _ _
  · exact h.same rfl

/-- Hints that are learned for the document. -/
theorem learns (h : Notes still base doc) {hints : Hints} (hl : doc.hints.Learns hints) :
    Notes still base { doc with hints } :=
  h.trans
    { line := fun _ => rfl
      numbered := List.suffix_refl _
      learned := hl
      file := rfl
      raised := ⟨[], (List.append_nil _).symm, by simp⟩ }

/-- Only a token without a hint gets one. -/
theorem learn (h : Notes still base doc) (token : Text) (tag : HintTag) : Notes still base (doc.learn token tag) := by
  unfold Document.learn
  split
  · exact h
  · rename_i hunknown
    exact h.learns (.set (Option.not_isSome_iff_eq_none.mp hunknown) tag)

/-- Lines that are put back have no number. -/
theorem pushLines (h : Notes still base doc) (lines : List Text) :
    Notes still base { doc with input := doc.input.pushLines lines } :=
  h.trans (of_input (fun _ => rfl) (Input.numbered_pushLines doc.input lines ▸ List.suffix_refl _) rfl rfl)

theorem pushLine (h : Notes still base doc) (line : Text) : Notes still base (doc.pushLine line) :=
  h.pushLines [line]

end Notes
end Document
end RoffDocBook

/-! Writing text and blocks notes complaints and hints only. -/
namespace RoffDocBook.Document.Notes
open Text Markup
variable {still : Bool} {base doc : Document} (h : Notes still base doc)
include h

theorem append (text : Text) : Notes still base (doc.append text) := by
  rw [append_eq]
  exact h.same (by rfl)

theorem emit (text : Text) : Notes still base (doc.emit text) := by
  rw [emit_eq]
  exact h.same (by rfl)

theorem emitMarkup (markup : Text) : Notes still base (doc.emitMarkup markup) :=
  h.foldl (fun text h => h.emit text) _

theorem emitAll (lines : List Text) : Notes still base (lines.foldl Document.emitMarkup doc) :=
  h.foldl (fun line h => h.emitMarkup line) lines

theorem truncate (n : Nat) : Notes still base (doc.truncate n) :=
  h.same (by rfl)

theorem emitComment (text : Text) : Notes still base (doc.emitComment text) :=
  .ite (h.emit _) h

theorem recordEntity (name : String) : Notes still base (doc.recordEntity name) := by
  unfold Document.recordEntity
  split
  · exact h
  · exact h.same (by rfl)

theorem namedGlyph (name : Text) : Notes still base (doc.namedGlyph name).2 := by
  unfold Document.namedGlyph
  split
  · exact h
  · split
    · split
      · exact h.recordEntity _
      · exact h
    · split
      · exact h
      · exact h.warn _

theorem glyphMarkup (name : Text) : Notes still base (doc.glyphMarkup name).2 := by
  unfold Document.glyphMarkup
  split
  · split
    · exact h
    · exact h.namedGlyph _
  · exact h.namedGlyph _

theorem renderPiece (piece : Inline.Piece) : Notes still base (doc.renderPiece piece).2 := by
  cases piece with
  | plain text => exact h
  | font name =>
    rw [Document.renderPiece]
    split
    · exact h.same (by rfl)
    · exact h.warn _
  | glyph name => exact h.glyphMarkup name
  | numbered number =>
    rw [Document.renderPiece]
    split
    · split
      · exact h
      · exact h.warn _
    · exact h.warn _
  | width text => exact h

theorem renderPieces (pieces : List Inline.Piece) : Notes still base (doc.renderPieces pieces).2 := by
  induction pieces generalizing doc with
  | nil => exact h
  | cons piece rest ih =>
    rw [Document.renderPieces]
    exact ih (h.renderPiece piece)

theorem renderInline (text : Text) : Notes still base (doc.renderInline text).2 := by
  unfold Document.renderInline
  dsimp only
  refine renderPieces ?_ _
  exact .ite (h.same (by rfl)) h

theorem interpolate (text : Text) : Notes still base (doc.interpolate text).2 :=
  h.same (by rfl)

theorem renderIsolated (text : Text) : Notes still base (doc.renderIsolated text).2 := by
  unfold Document.renderIsolated
  dsimp only
  have hrendered := renderInline (h.same (b := { doc with fonts := {} }) (by rfl)) text
  exact interpolate (hrendered.same (by rfl)) _

theorem finishLine (text : Text) : Notes still base (doc.finishLine text).2 :=
  h.interpolate text

theorem setFont (name : String) : Notes still base (doc.setFont name) := by
  have hclosed : Notes still base (if doc.fonts.closing.isEmpty then doc else doc.append doc.fonts.closing) :=
    .ite h (h.append _)
  unfold Document.setFont
  dsimp only
  split
  · exact hclosed.same (by rfl)
  · exact (hclosed.same (by rfl)).warn _

theorem closeParagraph : Notes still base doc.closeParagraph := by
  rw [closeParagraph_eq]
  split
  · exact h.same (by rfl)
  · exact h

theorem openParagraph : Notes still base doc.openParagraph := by
  rw [openParagraph_eq]
  split
  · exact h
  · exact h.same (by rfl)

theorem flushTrap : Notes still base doc.flushTrap := by
  unfold Document.flushTrap
  split
  · exact emit (h.same (by rfl)) _
  · exact h

theorem closeFont : Notes still base doc.closeFont := by
  rw [closeFont_eq]
  exact h.same (by rfl)

theorem takeFontClose : Notes still base doc.takeFontClose.2 :=
  h.same (by rfl)

theorem textLine (line : Text) : Notes still base (doc.textLine line) := by
  have hrendered := h.renderInline line
  unfold Document.textLine
  split
  · exact h.closeParagraph
  · dsimp only
    split
    · split
      · exact hrendered
      · exact emit (takeFontClose (finishLine (hrendered.same (by rfl)) _)) _
    · refine emit (finishLine ?_ _) _
      exact .ite hrendered.openParagraph hrendered

/-! Opening and closing blocks and sections, and writing what they hold. -/

theorem writeDisplayEnd (frame : DisplayFrame) : Notes still base (doc.writeDisplayEnd frame) :=
  (h.closeFont.append _).same (by rfl)

theorem closeInnerDisplays_go (blocks : List OpenBlock) :
    Notes still base (closeInnerDisplays.go blocks doc) := by
  induction blocks generalizing doc with
  | nil => exact h
  | cons block rest ih =>
    cases block with
    | list frame => exact h
    | display frame =>
      rw [closeInnerDisplays.go]
      exact ih (writeDisplayEnd (h.same (by rfl)) frame)

theorem closeInnerDisplays : Notes still base doc.closeInnerDisplays :=
  h.closeInnerDisplays_go doc.blocks

theorem closeItem : Notes still base doc.closeItem := by
  have hclosed := h.closeInnerDisplays.flushTrap.closeParagraph
  unfold Document.closeItem
  split
  · exact h.closeParagraph
  · split
    · exact h.closeParagraph
    · dsimp only
      refine .ite (hclosed.same (by rfl)) ?_
      refine .ite (append ?_ _) ?_ <;> refine emit (.ite (append ?_ _) ?_) _ <;> exact hclosed.same (by rfl)

theorem endList : Notes still base doc.endList := by
  have hclosed := h.closeItem.closeInnerDisplays.closeParagraph
  unfold Document.endList
  split
  · exact h
  · dsimp only
    split
    · refine .ite (truncate (hclosed.same (by rfl)) _) (emit (.ite (append ?_ _) ?_) _) <;>
        exact hclosed.same (by rfl)
    · exact hclosed

theorem endLists (frames : List ListFrame) : Notes still base (Document.endLists frames doc) :=
  h.foldl (fun _ h => h.endList) frames

theorem endAllLists : Notes still base doc.endAllLists :=
  h.endLists doc.openLists

theorem endListBy (opener : String) : Notes still base (doc.endListBy opener).2 := by
  unfold Document.endListBy
  split
  · exact h.endLists _
  · exact h

theorem breakLists (request : String) : Notes still base (doc.breakLists request) :=
  h.endLists _

theorem beginListWith (opener : String) (kind : ListKind) (attributes : Text) :
    Notes still base (doc.beginListWith opener kind attributes) :=
  (h.flushTrap.closeParagraph.emit _).same (by rfl)

theorem beginList (opener : String) (kind : ListKind) : Notes still base (doc.beginList opener kind) :=
  h.beginListWith opener kind ""

theorem beginItem (term : Option Text) : Notes still base (doc.beginItem term) := by
  have hclosed := h.closeItem.closeInnerDisplays
  unfold Document.beginItem
  dsimp only
  split
  · exact hclosed
  · split
    · exact emit (emit (hclosed.same (by rfl)) _) _
    · rw [emit_eq]
      exact hclosed.same (by rfl)
    · exact emit (hclosed.same (by rfl)) _
    · exact emit (hclosed.same (by rfl)) _
    · exact hclosed.same (by rfl)

theorem addTerm : Notes still base doc.addTerm.2 := by
  unfold Document.addTerm
  split
  · exact h
  · split
    · split
      · exact h.same (by rfl)
      · exact h
    · exact h

theorem beginDisplay (kind : DisplayKind) (opener : String) : Notes still base (doc.beginDisplay kind opener) :=
  (h.flushTrap.closeParagraph.emit _).same (by rfl)

theorem endDisplay : Notes still base doc.endDisplay.2 := by
  unfold Document.endDisplay
  split
  · exact h
  · dsimp only
    split
    · exact writeDisplayEnd ((h.endLists _).same (by rfl)) _
    · exact h.endLists _

theorem endAllDisplays : Notes still base doc.endAllDisplays :=
  h.foldl (fun _ h => h.endDisplay) _

theorem closeBlocks : Notes still base doc.closeBlocks :=
  h.flushTrap.endAllDisplays.endAllLists.closeParagraph

theorem endSection : Notes still base doc.endSection := by
  have hclosed := h.closeBlocks
  unfold Document.endSection
  dsimp only
  split
  · exact hclosed
  · refine .ite (.ite (truncate (warn (hclosed.same (by rfl)) _) _) ?_) ?_
    · exact emit (append (hclosed.same (by rfl)) _) _
    · exact emit (hclosed.same (by rfl)) _

theorem popSections (depth : Nat) : Notes still base (doc.popSections depth) :=
  h.foldl (fun _ h => h.endSection) _

theorem openSection (depth : Nat) (element title : Text) : Notes still base (doc.openSection depth element title) := by
  unfold Document.openSection
  dsimp only
  rw [emit_eq]
  exact (h.closeBlocks.popSections depth).same (by rfl)

theorem pushSection (depth : Nat) (title : Text) : Notes still base (doc.pushSection depth title) :=
  h.openSection _ _ title

theorem pushSynopsis (title : Text) : Notes still base (doc.pushSynopsis title) :=
  .ite (h.openSection _ _ title) (h.pushSection 1 title)

theorem beginFootnote : Notes still base doc.beginFootnote :=
  h.same (by rfl)

theorem endDiversion : Notes still base doc.endDiversion.2 := by
  have hclosed := h.flushTrap.closeParagraph
  unfold Document.endDiversion
  dsimp only
  split
  · exact hclosed
  · exact hclosed.same (by rfl)

theorem endFootnote : Notes still base doc.endFootnote := by
  unfold Document.endFootnote
  split
  · exact h.warn _
  · dsimp only
    split
    · exact h.endDiversion.append _
    · exact h.endDiversion

theorem finish : Notes still base doc.finish.2 := by
  have hdiverted : Notes still base doc.endDiversions :=
    h.foldl (fun _ h => h.endDiversion.foldl (fun line h => h.emit line) _) _
  exact (hdiverted.closeBlocks.popSections 0).same (by rfl)

theorem addInclusion (file : Text) : Notes still base (doc.addInclusion file).2 := by
  unfold Document.addInclusion
  dsimp only
  generalize (if doc.isFifth then _ else _ : Text) = markup
  split
  · exact h
  · exact h.same (by rfl)

theorem emitNames (names : List Text) (purpose : Text) : Notes still base (doc.emitNames names purpose) := by
  unfold Document.emitNames
  dsimp only
  refine emitMarkup (closeParagraph (renderIsolated ?_ _)) _
  split
  · exact foldl (fun name h => h.learn name _) (h.same (by rfl)) names
  · exact h.same (by rfl)

theorem nameSection (text : Text) : Notes still base (doc.nameSection text) := by
  unfold Document.nameSection
  split
  · exact h.emitNames _ _
  · exact (h.warn _).emitNames _ _

theorem indentedParagraph (tag : Text) (request : String) : Notes still base (doc.indentedParagraph tag request) := by
  have hnew := (h.beginList request .blockquote).beginItem none
  unfold Document.indentedParagraph
  split
  · split
    · exact .ite h.closeParagraph hnew
    · exact hnew
  · refine .ite ((renderIsolated ?_ tag).beginItem _) (beginItem ?_ none)
    all_goals
      split
      · exact .ite h (.ite (h.endList.beginList request _) (h.beginList request _))
      · exact h.beginList request _

theorem firstTerm? (texts : List Text) : Notes still base (doc.firstTerm? texts).2 := by
  induction texts generalizing doc with
  | nil => exact h
  | cons text rest ih =>
    rw [Document.firstTerm?]
    dsimp only
    split
    · exact ih (h.renderIsolated text)
    · exact h.renderIsolated text

theorem indexTerm (texts : List Text) : Notes still base (doc.indexTerm texts) := by
  have hfirst := h.firstTerm? texts
  unfold Document.indexTerm
  generalize doc.firstTerm? texts = found at hfirst
  match found with
  | (none, next) => exact hfirst
  | (some (primary, rest), next) =>
    exact .ite ((hfirst.firstTerm? rest).append _) ((hfirst.firstTerm? rest).emitMarkup _)

open Table

theorem renderEntries (entries : List Entry) : Notes still base (doc.renderEntries entries).2 := by
  induction entries generalizing doc with
  | nil => exact h
  | cons entry rest ih =>
    rw [Document.renderEntries]
    exact ih (h.renderIsolated entry.content)

theorem renderRows (rows : List Row) : Notes still base (doc.renderRows rows).2 := by
  induction rows generalizing doc with
  | nil => exact h
  | cons row rest ih =>
    rw [Document.renderRows]
    exact ih (h.renderEntries row.entries)

theorem renderTable (lines : List Text) (explicit : Bool) : Notes still base (doc.renderTable lines explicit) := by
  have hstart : Notes still base
      (if (Grid.ofLines lines explicit).formatted then doc else doc.warn .tableWithoutFormat) :=
    .ite h (h.warn _)
  unfold Document.renderTable
  dsimp only
  split
  · exact hstart.warn _
  · refine emitMarkup ?_ _
    exact (hstart.renderRows _).same (by rfl)

end RoffDocBook.Document.Notes
