import RoffDocBook.Proofs.Document.Output
import RoffDocBook.Proofs.Document.Writing
import RoffDocBook.Proofs.Formatter.Registers

/-! Lines of text without tags leave open what was open, up to the paragraph that they need. -/
namespace RoffDocBook.Document
open Text Markup

theorem substituteChars_nil (inMarkup : Bool) (t : Text) : substituteChars [] inMarkup t = t := by
  induction t generalizing inMarkup with
  | nil => rfl
  | cons c cs ih =>
    unfold substituteChars
    split
    · rw [ih]
    · split
      · rw [ih]
      · rw [ih]
        rfl

/-- Tabs become blanks, and nothing else is added. -/
theorem mem_expandTabsFrom {stops : List Nat} {scan : ColumnScan} {t : Text} {c : Char}
    (h : c ∈ expandTabsFrom stops scan t) : c ∈ t ∨ c = ' ' := by
  induction t generalizing scan with
  | nil => exact Or.inl h
  | cons d ds ih =>
    have keep {scan : ColumnScan} (h : c ∈ d :: expandTabsFrom stops scan ds) : c ∈ d :: ds ∨ c = ' ' := by
      rcases List.mem_cons.mp h with rfl | h
      · exact Or.inl List.mem_cons_self
      · exact (ih h).imp_left (List.mem_cons_of_mem d)
    unfold expandTabsFrom at h
    split at h
    · exact keep h
    · split at h
      · exact keep h
      · split at h
        · exact keep h
        · split at h
          · exact keep h
          · split at h
            · rcases List.mem_append.mp h with h | h
              · exact Or.inr (List.eq_of_mem_replicate h)
              · exact (ih h).imp_left (List.mem_cons_of_mem d)
            · split at h
              · exact keep h
              · exact keep h

theorem tagless_finished (doc : Document) (hs : doc.substitutes = []) {t : Text} (h : Tagless t) :
    Tagless (doc.finished t) := by
  unfold finished
  rw [hs, substituteChars_nil]
  dsimp only
  split
  · exact h
  · constructor
    · intro hm
      rcases mem_expandTabsFrom hm with hm | hm
      · exact h.1 hm
      · exact absurd hm (by decide)
    · intro hm
      rcases mem_expandTabsFrom hm with hm | hm
      · exact h.2 hm
      · exact absurd hm (by decide)

/-- Text in the default font is not changed where it is plain. -/
theorem reopened_of_roman {doc : Document} (h : doc.fonts = {}) (t : Text) :
    doc.reopened t = doc ∧ doc.reopening t = [] := by
  have hr : doc.reopens t = false := by
    rw [reopens, h]
    rfl
  exact ⟨by rw [reopened, hr, if_neg Bool.false_ne_true], by rw [reopening, hr, if_neg Bool.false_ne_true]⟩

theorem balanced_textLine {doc : Document} (h : Balanced doc) {t : Text} (he : '\\' ∉ t) (ht : Tagless t) :
    Balanced (doc.textLine t) := by
  obtain ⟨hopened, hopening⟩ := reopened_of_roman h.fonts t
  rw [textLine_of_plain doc he]
  simp only [trapped, readied, hopened, hopening, List.nil_append, h.closing, List.append_nil]
  split
  · exact balanced_closeParagraph h
  · cases htrap : doc.trap with
    | some trap =>
      dsimp only
      split
      · exact h
      · rw [emit_eq]
        exact h.write_term htrap (tagless_finished doc h.substitutes ht)
    | none =>
      dsimp only
      split
      · rename_i hf
        cases hp : doc.inParagraph with
        | true =>
          rw [openParagraph_eq, hp, if_pos rfl]
          exact balanced_emit h (adds_text (tagless_finished doc h.substitutes ht))
        | false =>
          have hjoins := h.joinNext_of_fill hf
          rw [openParagraph_eq, hp, if_neg Bool.false_ne_true, emit_eq, hjoins]
          have hparagraph := h.open_paragraph hf hp htrap
          exact hparagraph.write (adds_text (tagless_finished _ h.substitutes ht)) true
      · exact balanced_emit h (adds_text (tagless_finished doc h.substitutes ht))

end RoffDocBook.Document

/-! Lines of text with any escapes: what they are in the output, and what rendering them changes. -/
namespace RoffDocBook.Document
open Text

/-- Fields that rendering may change, with what they are changed to. -/
def Renders (before after : Document) : Prop :=
  ∃ fonts diagnostics entities registers,
    after = { before with fonts, diagnostics, entities, formatter := { before.formatter with registers } }

namespace Renders
variable {a b c : Document}

theorem refl (a : Document) : Renders a a :=
  ⟨a.fonts, a.diagnostics, a.entities, a.formatter.registers, rfl⟩

theorem trans (h : Renders a b) (k : Renders b c) : Renders a c := by
  obtain ⟨_, _, _, _, rfl⟩ := h
  obtain ⟨fonts, diagnostics, entities, registers, rfl⟩ := k
  exact ⟨fonts, diagnostics, entities, registers, rfl⟩

theorem fill (h : Renders a b) : b.formatter.fill = a.formatter.fill := by
  obtain ⟨_, _, _, _, rfl⟩ := h
  rfl

theorem trap (h : Renders a b) : b.trap = a.trap := by
  obtain ⟨_, _, _, _, rfl⟩ := h
  rfl

theorem blocks (h : Renders a b) : b.blocks = a.blocks := by
  obtain ⟨_, _, _, _, rfl⟩ := h
  rfl

theorem inParagraph (h : Renders a b) : b.inParagraph = a.inParagraph := by
  obtain ⟨_, _, _, _, rfl⟩ := h
  rfl

theorem tableTitle (h : Renders a b) : b.tableTitle = a.tableTitle := by
  obtain ⟨_, _, _, _, rfl⟩ := h
  rfl

end Renders

section
variable (doc : Document)

theorem renders_warn (complaint : Complaint) : Renders doc (doc.warn complaint) :=
  ⟨_, _, _, _, rfl⟩

theorem renders_recordEntity (name : String) : Renders doc (doc.recordEntity name) := by
  unfold recordEntity
  split
  · exact .refl doc
  · exact ⟨_, _, _, _, rfl⟩

theorem renders_namedGlyph (name : Text) : Renders doc (doc.namedGlyph name).2 := by
  unfold namedGlyph
  split
  · exact .refl doc
  · split
    · split
      · exact doc.renders_recordEntity _
      · exact .refl doc
    · split
      · exact .refl doc
      · exact doc.renders_warn _

theorem renders_glyphMarkup (name : Text) : Renders doc (doc.glyphMarkup name).2 := by
  unfold glyphMarkup
  split
  · split
    · exact .refl doc
    · exact doc.renders_namedGlyph _
  · exact doc.renders_namedGlyph name

theorem renders_renderPiece (piece : Inline.Piece) : Renders doc (doc.renderPiece piece).2 := by
  cases piece with
  | plain text => exact .refl doc
  | font name =>
    rw [renderPiece]
    split
    · exact ⟨_, _, _, _, rfl⟩
    · exact doc.renders_warn _
  | glyph name => exact doc.renders_glyphMarkup name
  | numbered number =>
    rw [renderPiece]
    split
    · split
      · exact .refl doc
      · exact doc.renders_warn _
    · exact doc.renders_warn _
  | width text => exact .refl doc

theorem renders_renderPieces (pieces : List Inline.Piece) : Renders doc (doc.renderPieces pieces).2 := by
  induction pieces generalizing doc with
  | nil => exact .refl doc
  | cons piece pieces ih => exact (doc.renders_renderPiece piece).trans (ih _)

theorem renders_renderInline (line : Text) : Renders doc (doc.renderInline line).2 := by
  unfold renderInline
  refine .trans ?_ (renders_renderPieces _ _)
  split
  · exact ⟨_, _, _, _, rfl⟩
  · exact .refl doc

theorem renders_finishLine (line : Text) : Renders doc (doc.finishLine line).2 := by
  have h := doc.formatter.recounts_interpolate line
  unfold finishLine interpolate
  dsimp only
  rw [h]
  exact ⟨_, _, _, _, rfl⟩

/-- What a line of text is in the output. -/
def rendering (line : Text) : Text :=
  ((doc.renderInline line).2.finishLine (doc.renderInline line).1).1

/-- Opening a paragraph for a line does not change what it is in the output. -/
theorem finishLine_openParagraph (line : Text) : (doc.openParagraph.finishLine line).1 = (doc.finishLine line).1 := by
  obtain ⟨_, _, _, _, _, h⟩ := doc.writes_openParagraph
  rw [h]
  rfl

@[simp] theorem renderInline_blocks (line : Text) : (doc.renderInline line).2.blocks = doc.blocks :=
  (doc.renders_renderInline line).blocks

@[simp] theorem finishLine_blocks (line : Text) : (doc.finishLine line).2.blocks = doc.blocks :=
  (doc.renders_finishLine line).blocks

@[simp] theorem openParagraph_blocks : doc.openParagraph.blocks = doc.blocks := by
  rw [openParagraph_eq]
  split <;> rfl

@[simp] theorem textLine_blocks (line : Text) : (doc.textLine line).blocks = doc.blocks := by
  unfold textLine
  simp only [emit_eq, takeFontClose]
  split
  · exact closeParagraph_blocks doc
  · split
    · split <;> simp
    · split <;> simp

@[simp] theorem emitMarkup_blocks (markup : Text) : (doc.emitMarkup markup).blocks = doc.blocks := by
  unfold emitMarkup
  generalize Text.lines markup = pieces
  induction pieces generalizing doc with
  | nil => rfl
  | cons piece pieces ih =>
    rw [List.foldl_cons, ih, emit_eq]

theorem rendering_of_plain {line : Text} (h : '\\' ∉ line) :
    doc.rendering line = (doc.reopened line).finished (doc.reopening line ++ line) := by
  have hplain : '\\' ∉ doc.reopening line ++ line := by
    rw [List.mem_append, not_or]
    exact ⟨doc.notMem_reopening line, h⟩
  rw [rendering, renderInline_of_plain doc h, finishLine_of_plain _ hplain]

end

end RoffDocBook.Document
