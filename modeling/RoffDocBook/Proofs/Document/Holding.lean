import RoffDocBook.Proofs.Document.Lists
import RoffDocBook.Proofs.Document.Rendering
import RoffDocBook.Proofs.Document.Terms
import RoffDocBook.Proofs.Document.Ledger

/-! Whatever is written, text is filled outside all displays, and output joins the last line only after the start of a
display. -/
namespace RoffDocBook.Document
open Text Markup

section
variable {doc : Document}

theorem filling_mapTopList (change : ListFrame → ListFrame) {fill : Bool} {blocks : List OpenBlock}
    (h : Filling fill blocks) : Filling fill (mapTopList change blocks) := by
  induction blocks generalizing fill with
  | nil => exact h
  | cons block rest ih =>
    cases block with
    | list frame => exact h
    | display frame => exact ⟨h.1, ih h.2⟩

theorem aligned_of_joinNext (h : Filling doc.formatter.fill doc.blocks) (hj : doc.joinNext = false) : Aligned doc :=
  ⟨h, fun hn => by rw [hj] at hn; cases hn⟩

/-- Where no block is open, text is filled, and output begins a line. -/
theorem Aligned.of_nil (h : Aligned doc) (hb : doc.blocks = []) :
    doc.formatter.fill = true ∧ doc.joinNext = false := by
  have hfill := h.filling
  rw [hb] at hfill
  exact ⟨hfill, h.joinNext_of_fill hfill⟩

theorem aligned_emit (h : Filling doc.formatter.fill doc.blocks) (text : Text) : Aligned (doc.emit text) := by
  rw [emit_eq]
  exact aligned_of_joinNext h rfl

theorem Aligned.closeParagraph (h : Aligned doc) : Aligned doc.closeParagraph := by
  rw [closeParagraph_eq]
  split
  · exact aligned_of_joinNext h.filling rfl
  · exact h

theorem Aligned.flushTrap (h : Aligned doc) : Aligned doc.flushTrap := by
  rw [flushTrap_eq]
  split
  · exact aligned_of_joinNext h.filling rfl
  · exact h

theorem Renders.filling {after : Document} (h : Renders doc after) (hf : Filling doc.formatter.fill doc.blocks) :
    Filling after.formatter.fill after.blocks := by
  obtain ⟨_, _, _, _, rfl⟩ := h
  exact hf

theorem Writes.filling {after : Document} (h : Writes doc after) (hf : Filling doc.formatter.fill doc.blocks) :
    Filling after.formatter.fill after.blocks := by
  obtain ⟨_, _, _, _, _, rfl⟩ := h
  exact hf

theorem Aligned.textLine (h : Aligned doc) (line : Text) : Aligned (doc.textLine line) := by
  have hrenders := doc.renders_renderInline line
  have hrendered := hrenders.filling h.filling
  unfold Document.textLine
  split
  · exact h.closeParagraph
  · dsimp only
    split
    · split
      · obtain ⟨_, _, _, _, hsame⟩ := hrenders
        rw [hsame]
        exact ⟨h.filling, h.joins⟩
      · refine aligned_emit ?_ _
        exact (renders_finishLine { (doc.renderInline line).2 with trap := none } _).filling hrendered
    · refine aligned_emit ((renders_finishLine _ _).filling ?_) _
      split
      · exact (writes_openParagraph _).filling hrendered
      · exact hrendered

theorem Aligned.emitMarkup (h : Aligned doc) (markup : Text) : Aligned (doc.emitMarkup markup) := by
  unfold Document.emitMarkup
  generalize Text.lines markup = pieces
  induction pieces generalizing doc with
  | nil => exact h
  | cons piece pieces ih => exact ih (aligned_emit h.filling piece)

theorem Aligned.beginListWith (h : Aligned doc) (opener : String) (kind : ListKind) (attributes : Text) :
    Aligned (doc.beginListWith opener kind attributes) := by
  rw [beginListWith_eq]
  exact aligned_of_joinNext h.flushTrap.closeParagraph.filling rfl

theorem Aligned.beginDisplay (h : Aligned doc) (kind : DisplayKind) (opener : String) :
    Aligned (doc.beginDisplay kind opener) := by
  rw [beginDisplay_eq]
  exact ⟨⟨rfl, h.flushTrap.closeParagraph.filling⟩, fun _ => ⟨_, _, rfl⟩⟩

theorem Aligned.writeDisplayEnd (h : Aligned doc) {frame : DisplayFrame} {rest : List OpenBlock}
    (hb : doc.blocks = .display frame :: rest) : Aligned ({ doc with blocks := rest }.writeDisplayEnd frame) := by
  have hfill := h.filling
  rw [hb] at hfill
  rw [writeDisplayEnd_eq]
  exact aligned_of_joinNext hfill.2 rfl

theorem Aligned.closeInnerDisplays (h : Aligned doc) : Aligned doc.closeInnerDisplays := by
  unfold Document.closeInnerDisplays
  generalize hb : doc.blocks = blocks
  induction blocks generalizing doc with
  | nil => exact h
  | cons block rest ih =>
    cases block with
    | list frame => exact h
    | display frame => exact ih (h.writeDisplayEnd hb) (writeDisplayEnd_blocks _ frame)

/-- A change to the innermost list changes nothing about displays. -/
theorem Aligned.mapTopList (h : Aligned doc) (change : ListFrame → ListFrame) :
    Aligned { doc with blocks := Document.mapTopList change doc.blocks } := by
  refine ⟨filling_mapTopList change h.filling, fun hj => ?_⟩
  obtain ⟨frame, rest, hb⟩ := h.joins hj
  dsimp only
  rw [hb]
  exact ⟨frame, Document.mapTopList change rest, rfl⟩

/-- The end of an item leaves the formatter and the trap, and nothing joins it. -/
theorem itemEnd_state (doc : Document) (kind : ListKind) :
    (doc.filledItem.writeItemEnd kind).formatter = doc.formatter ∧
      (doc.filledItem.writeItemEnd kind).joinNext = false ∧
        (doc.filledItem.writeItemEnd kind).trap = doc.trap := by
  unfold filledItem writeItemEnd
  simp only [emit_eq, append_eq]
  split <;> split <;> exact ⟨rfl, rfl, rfl⟩

theorem Aligned.closeItem (h : Aligned doc) : Aligned doc.closeItem := by
  rw [closeItem_eq]
  split
  · exact h.closeParagraph
  · rename_i frame _
    split
    · have hinner := h.closeInnerDisplays.flushTrap.closeParagraph
      have hclosed := hinner.mapTopList ({ · with itemOpen := false })
      dsimp only
      split
      · exact hclosed
      · obtain ⟨hformatter, hjoins, _⟩ := itemEnd_state doc.closeInnerDisplays.flushTrap.closeParagraph frame.kind
        refine aligned_of_joinNext ?_ hjoins
        dsimp only
        rw [hformatter]
        exact hclosed.filling
    · exact h.closeParagraph

theorem Aligned.writeItemStart (h : Aligned doc) (kind : ListKind) (term : Option Text) :
    Aligned (doc.writeItemStart kind term) := by
  cases kind with
  | terms =>
    cases term with
    | none =>
      have hentry := aligned_emit h.filling "<varlistentry>"
      exact ⟨hentry.filling, hentry.joins⟩
    | some term => exact aligned_emit (aligned_emit h.filling _).filling _
  | itemized => exact aligned_emit h.filling _
  | ordered => exact aligned_emit h.filling _
  | blockquote => exact h

theorem Aligned.beginItem (h : Aligned doc) (term : Option Text) : Aligned (doc.beginItem term) := by
  have hinner := h.closeItem.closeInnerDisplays
  rw [beginItem_eq]
  dsimp only
  split
  · exact hinner
  · exact (hinner.mapTopList fun frame => { frame with items := frame.items + 1, itemOpen := true }).writeItemStart _ _

theorem Aligned.writeListEnd (h : Aligned doc) (hj : doc.joinNext = false) (frame : ListFrame) :
    Aligned (doc.writeListEnd frame) := by
  unfold Document.writeListEnd
  dsimp only
  split
  · exact aligned_of_joinNext h.filling hj
  · rw [append_eq]
    refine aligned_emit ?_ _
    split <;> exact h.filling

theorem Aligned.endList (h : Aligned doc) : Aligned doc.endList := by
  rcases doc.endList_cases with ⟨_, he⟩ | ⟨frame, rest, _, hb, he⟩
  · rw [he]
    exact h
  · have hinner := h.closeItem.closeInnerDisplays.closeParagraph
    rw [← closeParagraph_blocks] at hb
    have hj := hinner.joinNext_of_list hb
    have hfill := hinner.filling
    rw [hb] at hfill
    have hrest : Aligned { doc.closeItem.closeInnerDisplays.closeParagraph with blocks := rest } :=
      aligned_of_joinNext hfill hj
    rw [he]
    exact hrest.writeListEnd hj _

end

end RoffDocBook.Document

/-! Writing to a document keeps the texts in its output, where the start of a list that may be taken back stands on a
line of its own. -/
namespace RoffDocBook.Document
open Text Markup

/-- What writing text, lists and displays leaves as it is. -/
structure Outside where
  /-- The output lines before, the most recent first. -/
  lines : List Text
  sections : List OpenSection
  suspended : List Suspended

/-- The output of a document holds texts, and nothing joins a line that may be taken back. -/
structure Holding (outside : Outside) (starts : List Provisional) (doc : Document) (texts : List Text) : Prop where
  recorded : Recorded outside.lines starts doc.lines texts
  joins : doc.joinNext = true → ∀ start ∈ starts, start.line + 1 < doc.lines.length
  sections : doc.sections = outside.sections
  suspended : doc.suspended = outside.suspended
  substitutes : doc.substitutes = []

theorem spaced_expandTabsFrom (stops : List Nat) (scan : ColumnScan) (t : Text) :
    Spaced t (expandTabsFrom stops scan t) := by
  induction t generalizing scan with
  | nil => exact .nil
  | cons c cs ih =>
    unfold expandTabsFrom
    split
    · exact .char c (ih _)
    · split
      · exact .char c (ih _)
      · split
        · exact .char c (ih _)
        · split
          · exact .char c (ih _)
          · split
            · rename_i htab
              rw [Bool.and_eq_true, beq_iff_eq] at htab
              rw [htab.1]
              exact .tab _ (ih _)
            · split
              · exact .char c (ih _)
              · exact .char c (ih _)

/-- The texts that a line of text adds. -/
def shown (t : Text) : List Text :=
  if isAllBlank t then [] else [t]

/-- What a line of text adds to the output: itself, or what it is rendered as if there are escapes in it. -/
def lineTexts (doc : Document) (line : Text) : List Text :=
  shown (if '\\' ∈ line then doc.rendering line else line)

theorem notMem_of_isAllBlank {t : Text} (h : isAllBlank t = true) : '\\' ∉ t := by
  intro hm
  have hblank := List.all_eq_true.mp h _ hm
  exact absurd hblank (by decide)

section
variable {doc : Document} (hs : doc.substitutes = [])
include hs

theorem spaced_finished (t : Text) : Spaced t (doc.finished t) := by
  unfold finished
  rw [hs, substituteChars_nil]
  dsimp only
  split
  · exact .refl t
  · exact spaced_expandTabsFrom _ _ t

theorem Renders.isAllBlank_finishLine {after : Document} (h : Renders doc after) {t : Text}
    (ht : isAllBlank t = true) : isAllBlank (after.finishLine t).1 = true := by
  obtain ⟨_, _, _, _, rfl⟩ := h
  rw [finishLine_of_plain _ (notMem_of_isAllBlank ht), (spaced_finished (by exact hs) t).isAllBlank_eq, ht]

/-- A line without escapes is rendered as itself, behind a tag for its font where that is needed. -/
theorem inOrder_lineTexts (line : Text) : InOrder (doc.lineTexts line) (doc.rendering line) := by
  unfold lineTexts shown
  split
  · split
    · exact .nil _
    · exact .self _
  · rename_i hplain
    split
    · exact .nil _
    · have hspaced : Spaced (doc.reopening line ++ line) (doc.rendering line) := by
        have hwrites := doc.writes_reopened line
        obtain ⟨_, _, _, _, _, hreopened⟩ := hwrites
        rw [rendering_of_plain doc hplain, hreopened]
        exact spaced_finished (by exact hs) _
      obtain ⟨before, after, heq, hafter⟩ := hspaced.append_inv
      have hline := InOrder.single before [] hafter
      rwa [List.append_nil, ← heq] at hline

/-- Where nothing is written for a line, there is nothing to write. -/
theorem lineTexts_of_blank {line : Text}
    (hb : isAllBlank line = true ∨ isAllBlank (doc.renderInline line).1 = true) : doc.lineTexts line = [] := by
  unfold lineTexts shown
  rw [if_pos]
  split
  · rename_i he
    rcases hb with hb | hb
    · exact absurd he (notMem_of_isAllBlank hb)
    · exact (doc.renders_renderInline line).isAllBlank_finishLine hs hb
  · rename_i he
    rcases hb with hb | hb
    · exact hb
    · rw [renderInline_of_plain doc he] at hb
      unfold isAllBlank at hb ⊢
      rw [List.all_append, Bool.and_eq_true] at hb
      exact hb.2

end

/-- The paragraph that a line of text opens. -/
def opening (doc : Document) (line : Text) : List Text :=
  if doc.formatter.fill && !isAllBlank line && doc.trap.isNone && !doc.inParagraph then ["<para>"] else []

namespace Holding
variable {outside : Outside} {texts more : List Text} {starts : List Provisional} {start : Provisional}
  {doc : Document} {piece : Text}

theorem emit (h : Holding outside starts doc texts) (hp : InOrder more piece) :
    Holding outside starts (doc.emit piece) (texts ++ more) := by
  rw [emit_eq]
  exact {
    recorded := h.recorded.addLine hp fun hj _ => h.joins hj
    joins := fun hn => by cases hn
    sections := h.sections
    suspended := h.suspended
    substitutes := h.substitutes }

/-- Markup that holds no text. -/
theorem emit_tag (h : Holding outside starts doc texts) (piece : Text) :
    Holding outside starts (doc.emit piece) texts := by
  have hall := h.emit (.nil piece)
  rwa [List.append_nil] at hall

/-- The last line is made longer, unless it may be taken back. -/
theorem append_of (h : Holding outside starts doc texts) (hp : InOrder more piece)
    (hs : more ≠ [] → ∀ start ∈ starts, start.line + 1 < doc.lines.length) :
    Holding outside starts (doc.append piece) (texts ++ more) := by
  rw [append_eq]
  exact {
    recorded := h.recorded.lengthen hp hs
    joins := fun hn => by cases hn
    sections := h.sections
    suspended := h.suspended
    substitutes := h.substitutes }

theorem append (h : Holding outside starts doc texts) (piece : Text) :
    Holding outside starts (doc.append piece) texts := by
  have hall := h.append_of (.nil piece) fun hn => absurd rfl hn
  rwa [List.append_nil] at hall

/-- The state beside the output does not matter. -/
theorem beside (h : Holding outside starts doc texts) (blocks : List OpenBlock) (trap : Option Trap)
    (formatter : Formatter.State) : Holding outside starts { doc with blocks, trap, formatter } texts :=
  { h with }

theorem takeFontClose (h : Holding outside starts doc texts) : Holding outside starts doc.takeFontClose.2 texts :=
  { h with }

theorem renders {after : Document} (h : Holding outside starts doc texts) (hr : Renders doc after) :
    Holding outside starts after texts := by
  obtain ⟨_, _, _, _, rfl⟩ := hr
  exact { h with }

theorem closeFont (h : Holding outside starts doc texts) : Holding outside starts doc.closeFont texts := by
  have hall := h.append doc.fonts.closing
  rw [append_eq] at hall
  rw [closeFont_eq]
  exact { hall with }

theorem closeParagraph (h : Holding outside starts doc texts) : Holding outside starts doc.closeParagraph texts := by
  unfold Document.closeParagraph
  split
  · exact { h.closeFont.append "</para>" with }
  · exact h

theorem flushTrap (h : Holding outside starts doc texts) : Holding outside starts doc.flushTrap texts := by
  unfold Document.flushTrap
  cases doc.trap with
  | none => exact h
  | some trap =>
    have hready : Holding outside starts { doc with trap := none } texts := { h with }
    exact hready.emit_tag _

/-- Lines that may be taken back come before the lines that are written. -/
theorem joins_addLine (h : Holding outside starts doc texts) (piece : Text) :
    ∀ start ∈ starts, start.line + 1 < (addLine doc.joinNext piece doc.lines).length := by
  intro start hm
  cases hj : doc.joinNext with
  | true => exact Nat.lt_of_lt_of_le (h.joins hj start hm) (Keeps.addLine true piece doc.lines).1
  | false => exact Nat.succ_lt_succ (h.recorded.lt hm)

theorem openParagraph (h : Holding outside starts doc texts) :
    Holding outside starts doc.openParagraph
      (texts ++ if doc.inParagraph then [] else [("<para>" : Text)]) := by
  rw [openParagraph_eq]
  split
  · rwa [List.append_nil]
  · have hopened := h.emit (.self "<para>")
    rw [emit_eq] at hopened
    exact { hopened with joins := fun _ => h.joins_addLine "<para>" }

/-- A line of text is written as what it is rendered as, in a paragraph where text is filled. -/
theorem textLine (h : Holding outside starts doc texts) (line : Text) :
    Holding outside starts (doc.textLine line) (texts ++ (doc.opening line ++ doc.lineTexts line)) := by
  have hrenders := doc.renders_renderInline line
  have hrendered := h.renders hrenders
  unfold Document.textLine opening
  split
  · rename_i hb
    simp only [Bool.and_eq_true] at hb
    rw [lineTexts_of_blank h.substitutes (Or.inl hb.1.2), hb.1.2]
    simpa using h.closeParagraph
  · rename_i hb
    dsimp only
    rw [hrenders.trap]
    cases htrap : doc.trap with
    | some trap =>
      dsimp only
      rw [Option.isNone_some, Bool.and_false, Bool.false_and, if_neg Bool.false_ne_true, List.nil_append]
      split
      · rename_i hblank
        rwa [lineTexts_of_blank h.substitutes (Or.inr hblank), List.append_nil]
      · have hready : Holding outside starts { (doc.renderInline line).2 with trap := none } texts := { hrendered with }
        have hfinished := hready.renders (renders_finishLine _ (doc.renderInline line).1)
        refine hfinished.takeFontClose.emit ?_
        rw [List.append_assoc, List.append_assoc]
        exact ((inOrder_lineTexts h.substitutes line).before _).after _
    | none =>
      rw [htrap, Option.isNone_none, Bool.and_true] at hb
      rw [Option.isNone_none, Bool.and_true, hrenders.fill, ← List.append_assoc]
      cases hfill : doc.formatter.fill with
      | false =>
        rw [Bool.false_and, Bool.false_and, if_neg Bool.false_ne_true, if_neg Bool.false_ne_true, List.append_nil]
        exact (hrendered.renders (renders_finishLine _ _)).emit (inOrder_lineTexts h.substitutes line)
      | true =>
        have hopened := hrendered.openParagraph
        have hparagraph : (doc.renderInline line).2.inParagraph = doc.inParagraph := hrenders.inParagraph
        have hopening : (if !isAllBlank line && !doc.inParagraph then [("<para>" : Text)] else []) =
            if doc.inParagraph then [] else [("<para>" : Text)] := by
          rw [hfill, Bool.true_and, Bool.not_eq_true] at hb
          rw [hb, Bool.not_false, Bool.true_and]
          cases doc.inParagraph <;> rfl
        rw [hparagraph] at hopened
        rw [Bool.true_and, hopening]
        simp only [reduceIte]
        refine (hopened.renders (renders_finishLine _ _)).emit ?_
        rw [finishLine_openParagraph]
        exact inOrder_lineTexts h.substitutes line

/-- Markup is written line by line. -/
theorem emitMarkup (h : Holding outside starts doc texts) (markup : Text) :
    Holding outside starts (doc.emitMarkup markup) (texts ++ Text.lines markup) := by
  unfold Document.emitMarkup
  generalize Text.lines markup = pieces
  induction pieces generalizing doc texts with
  | nil => rwa [List.append_nil]
  | cons piece pieces ih =>
    have hall := ih (h.emit (.self piece))
    rwa [List.append_assoc] at hall

theorem writeDisplayEnd (h : Holding outside starts doc texts) (frame : DisplayFrame) :
    Holding outside starts (doc.writeDisplayEnd frame) texts := by
  have hclosed := h.closeFont.append ("</" ++ frame.kind.element ++ ">")
  exact { hclosed with }

theorem closeInnerDisplays (h : Holding outside starts doc texts) :
    Holding outside starts doc.closeInnerDisplays texts := by
  unfold Document.closeInnerDisplays
  generalize doc.blocks = blocks
  induction blocks generalizing doc with
  | nil => exact h
  | cons block rest ih =>
    cases block with
    | list frame => exact h
    | display frame => exact ih ((h.beside rest doc.trap doc.formatter).writeDisplayEnd frame)

theorem filledItem (h : Holding outside starts doc texts) : Holding outside starts doc.filledItem texts := by
  unfold Document.filledItem
  split
  · exact h.append "<para/>"
  · exact h

theorem writeItemEnd (h : Holding outside starts doc texts) (kind : ListKind) :
    Holding outside starts (doc.writeItemEnd kind) texts := by
  unfold Document.writeItemEnd
  split
  · exact (h.emit_tag _).append _
  · exact h.emit_tag _

theorem closeItem (h : Holding outside starts doc texts) : Holding outside starts doc.closeItem texts := by
  rw [closeItem_eq]
  cases doc.topList? with
  | none => exact h.closeParagraph
  | some frame =>
    dsimp only
    split
    · have hinner := h.closeInnerDisplays.flushTrap.closeParagraph
      split
      · exact hinner.beside _ _ _
      · exact (hinner.filledItem.writeItemEnd frame.kind).beside _ _ _
    · exact h.closeParagraph

theorem writeItemStart (h : Holding outside starts doc texts) (kind : ListKind) (term : Option Text) :
    Holding outside starts (doc.writeItemStart kind term) texts := by
  cases kind with
  | terms =>
    cases term with
    | none => exact (h.emit_tag "<varlistentry>").beside _ _ _
    | some term => exact (h.emit_tag _).emit_tag _
  | itemized => exact h.emit_tag _
  | ordered => exact h.emit_tag _
  | blockquote => exact h

theorem beginItem (h : Holding outside starts doc texts) (term : Option Text) :
    Holding outside starts (doc.beginItem term) texts := by
  have hinner := h.closeItem.closeInnerDisplays
  rw [beginItem_eq]
  dsimp only
  cases doc.closeItem.closeInnerDisplays.topList? with
  | none => exact hinner
  | some frame => exact (hinner.beside _ _ _).writeItemStart frame.kind term

/-- The start of a display joins no line that may be taken back, nor does the text after it. -/
theorem beginDisplay (h : Holding outside starts doc texts) (kind : DisplayKind) (opener : String)
    (hm : InOrder more ("<" ++ kind.element ++ " remap='" ++ escapeAttribute opener.toList ++ "'>")) :
    Holding outside starts (doc.beginDisplay kind opener) (texts ++ more) := by
  have hready := h.flushTrap.closeParagraph
  have hopened := hready.emit hm
  rw [emit_eq] at hopened
  rw [beginDisplay_eq]
  exact { hopened with joins := fun _ => hready.joins_addLine _ }

/-- A list that begins on a line of its own may be taken back. -/
theorem beginListWith (h : Holding outside starts doc texts) (hj : doc.joinNext = false) (opener : String)
    (kind : ListKind) (attributes : Text) :
    Holding outside ({ line := doc.flushTrap.closeParagraph.lines.length, texts := [] } :: starts)
      (doc.beginListWith opener kind attributes) texts := by
  have hready := h.flushTrap.closeParagraph
  rw [beginListWith_eq]
  dsimp only
  rw [flushTrap_closeParagraph_joinNext hj]
  have hpushed := hready.recorded.push (.nil ("<" ++ kind.element ++ attributes ++ " remap='" ++
    escapeAttribute opener.toList ++ "'>"))
  rw [List.append_nil] at hpushed
  exact { hready with recorded := hpushed, joins := fun hn => by cases hn }

/-- A line that may no longer be taken back. -/
theorem pop (h : Holding outside (start :: starts) doc texts) : Holding outside starts doc texts :=
  { h with recorded := h.recorded.pop, joins := fun hj other hm => h.joins hj other (List.mem_cons_of_mem start hm) }

/-- The end of a list that stays. -/
theorem writeListEnd_of_kept (h : Holding outside starts doc texts) (frame : ListFrame)
    (hk : (doc.lines.length == frame.start + 1 && frame.items == 0) = false)
    (hm : InOrder more ("</" ++ frame.kind.element ++ ">")) :
    Holding outside starts (doc.writeListEnd frame) (texts ++ more) := by
  unfold Document.writeListEnd
  dsimp only
  rw [hk, if_neg Bool.false_ne_true]
  split
  · exact (h.append "<para/>").emit hm
  · exact h.emit hm

/-- The end of a list without items, which may take its start back. -/
theorem writeListEnd (frame : ListFrame)
    (h : Holding outside ({ line := frame.start, texts := [] } :: starts) doc texts) (hi : frame.items = 0)
    (ho : starts = [] → outside.lines = []) : Holding outside starts (doc.writeListEnd frame) texts := by
  cases hk : doc.lines.length == frame.start + 1 with
  | false =>
    have hkept := h.pop.writeListEnd_of_kept frame (by rw [hk, Bool.false_and]) (.nil _)
    rwa [List.append_nil] at hkept
  | true =>
    unfold Document.writeListEnd
    dsimp only
    rw [hk, hi, beq_self_eq_true, Bool.true_and, if_pos rfl]
    have hlast := eq_of_beq hk
    refine { h with recorded := h.recorded.truncate rfl hlast ho, joins := ?_ }
    intro hj
    have hlt := h.joins hj _ List.mem_cons_self
    dsimp only at hlt
    omega

end Holding

end RoffDocBook.Document
