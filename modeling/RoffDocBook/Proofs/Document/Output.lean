import RoffDocBook.Document.Inline

/-! What the ways of writing output change of a document: its lines, and what tells how the next piece joins them. -/
namespace RoffDocBook.Document
open Text

/-- Output lines with a text at the end of the last one. -/
def lengthen (text : Text) : List Text → List Text
  | [] => [text]
  | last :: before => (last ++ text) :: before

/-- Output lines with a piece added, which may continue the last one. -/
def addLine (joins : Bool) (text : Text) (lines : List Text) : List Text :=
  if joins then lengthen text lines else text :: lines

theorem append_eq (doc : Document) (text : Text) :
    doc.append text = { doc with joinNext := false, lines := lengthen text doc.lines } := by
  unfold append
  cases doc.lines <;> rfl

theorem emit_eq (doc : Document) (text : Text) :
    doc.emit text = { doc with joinNext := false, lines := addLine doc.joinNext text doc.lines } := by
  unfold emit
  cases doc.joinNext <;> cases doc.lines <;> rfl

theorem closeFont_eq (doc : Document) :
    doc.closeFont = { doc with fonts := {}, joinNext := false, lines := lengthen doc.fonts.closing doc.lines } := by
  rw [closeFont, append_eq]
  rfl

theorem closeParagraph_eq (doc : Document) :
    doc.closeParagraph =
      if doc.inParagraph then
        { doc with
          fonts := {}
          inParagraph := false
          joinNext := false
          lines := lengthen "</para>" (lengthen doc.fonts.closing doc.lines) }
      else doc := by
  rw [closeParagraph, closeFont_eq, append_eq]

theorem openParagraph_eq (doc : Document) :
    doc.openParagraph =
      if doc.inParagraph then doc
      else { doc with inParagraph := true, joinNext := true, lines := addLine doc.joinNext "<para>" doc.lines } := by
  rw [openParagraph, emit_eq]

/-- Fields that writing may change, with what they are changed to. -/
def Writes (before after : Document) : Prop :=
  ∃ lines inParagraph joinNext trap fonts, after = { before with lines, inParagraph, joinNext, trap, fonts }

namespace Writes
variable {a b c : Document}

theorem refl (a : Document) : Writes a a :=
  ⟨a.lines, a.inParagraph, a.joinNext, a.trap, a.fonts, rfl⟩

theorem trans (h : Writes a b) (k : Writes b c) : Writes a c := by
  obtain ⟨_, _, _, _, _, rfl⟩ := h
  obtain ⟨lines, inParagraph, joinNext, trap, fonts, rfl⟩ := k
  exact ⟨lines, inParagraph, joinNext, trap, fonts, rfl⟩

end Writes

theorem writes_emit (doc : Document) (text : Text) : Writes doc (doc.emit text) :=
  ⟨_, doc.inParagraph, false, doc.trap, doc.fonts, doc.emit_eq text⟩

theorem writes_closeParagraph (doc : Document) : Writes doc doc.closeParagraph := by
  rw [closeParagraph_eq]
  split
  · exact ⟨_, _, _, _, _, rfl⟩
  · exact .refl doc

theorem writes_openParagraph (doc : Document) : Writes doc doc.openParagraph := by
  rw [openParagraph_eq]
  split
  · exact .refl doc
  · exact ⟨_, _, _, _, _, rfl⟩

end RoffDocBook.Document

/-! Text without escapes: it is rendered as it is, in the font that is in force, and nothing else of the document
changes. -/
namespace RoffDocBook.Document
open Text

theorem pieces_of_plain {t : Text} (h : '\\' ∉ t) : Inline.pieces t = t.map fun c => .plain [c] := by
  induction t with
  | nil => rw [Inline.pieces]; rfl
  | cons c cs ih =>
    rw [List.mem_cons, not_or] at h
    rw [Inline.pieces, ih h.2]
    · rfl
    · intro hc
      exact absurd hc.symm h.1
    · intro e rest hc
      exact absurd hc.symm h.1

theorem renderPieces_of_plain (doc : Document) (t : Text) :
    doc.renderPieces (t.map fun c => .plain [c]) = (t, doc) := by
  induction t with
  | nil => rfl
  | cons c cs ih =>
    rw [List.map_cons, renderPieces]
    simp only [renderPiece, ih]
    rfl

/-- Whether the tag of the current font is still to be opened for a text. -/
def reopens (doc : Document) (t : Text) : Bool :=
  doc.fonts.current != .roman && !doc.fonts.opened && !isAllBlank t

/-- The document with its font opened for a text. -/
def reopened (doc : Document) (t : Text) : Document :=
  if doc.reopens t then { doc with fonts := { doc.fonts with opened := true } } else doc

def reopening (doc : Document) (t : Text) : Text :=
  if doc.reopens t then doc.fonts.current.openTag else []

theorem renderInline_of_plain (doc : Document) {t : Text} (h : '\\' ∉ t) :
    doc.renderInline t = (doc.reopening t ++ t, doc.reopened t) := by
  unfold renderInline
  rw [pieces_of_plain h]
  dsimp only
  rw [renderPieces_of_plain]
  rfl

theorem notMem_reopening (doc : Document) (t : Text) : '\\' ∉ doc.reopening t := by
  unfold reopening
  split
  · cases doc.fonts.current <;> decide
  · simp

theorem interpolate_of_plain (doc : Document) {t : Text} (h : '\\' ∉ t) : doc.interpolate t = (t, doc) := by
  have hs : doc.formatter.interpolate t = (t, doc.formatter) := by
    induction t with
    | nil => rw [Formatter.State.interpolate]
    | cons c cs ih =>
      rw [List.mem_cons, not_or] at h
      rw [Formatter.State.interpolate, ih h.2]
      · intro rest hc
        exact absurd hc.symm h.1
      · intro e rest hc
        exact absurd hc.symm h.1
  rw [interpolate, hs]

theorem stripMotions_append {t : Text} (h : '\\' ∉ t) (u : Text) :
    Inline.stripMotions (t ++ u) = t ++ Inline.stripMotions u := by
  induction t with
  | nil => rfl
  | cons c t ih =>
    rw [List.mem_cons, not_or] at h
    rw [List.cons_append, Inline.stripMotions, ih h.2]
    · rfl
    · exact fun _ same _ => h.1 same.symm
    · exact fun _ same _ => h.1 same.symm
    · exact fun _ same _ => h.1 same.symm
    · exact fun _ _ same _ => h.1 same.symm

theorem stripMotions_of_plain {t : Text} (h : '\\' ∉ t) : Inline.stripMotions t = t := by
  have kept := stripMotions_append h []
  rwa [Inline.stripMotions, List.append_nil] at kept

/-- The finished form of a text without escapes. -/
def finished (doc : Document) (t : Text) : Text :=
  let substituted := substituteChars doc.substitutes false t
  if doc.formatter.fill then substituted else expandTabsFrom doc.tabStops {} substituted

theorem finishLine_of_plain (doc : Document) {t : Text} (h : '\\' ∉ t) : doc.finishLine t = (doc.finished t, doc) := by
  rw [finishLine, interpolate_of_plain doc h]
  dsimp only
  rw [stripMotions_of_plain h]
  rfl

/-- The document ready for a text, in a paragraph where text is filled. -/
def readied (doc : Document) (t : Text) : Document :=
  if (doc.reopened t).formatter.fill then (doc.reopened t).openParagraph else doc.reopened t

/-- The markup of a text that an open trap takes. -/
def trapped (doc : Document) (trap : Trap) (t : Text) : Text :=
  trap.before ++ (doc.reopened t).finished (doc.reopening t ++ t) ++ (doc.reopened t).fonts.closing ++ trap.after

/-- What a line without escapes does. -/
theorem textLine_of_plain (doc : Document) {t : Text} (h : '\\' ∉ t) :
    doc.textLine t =
      if doc.formatter.fill && isAllBlank t && doc.trap.isNone then doc.closeParagraph
      else
        match (doc.reopened t).trap with
        | some trap =>
          if isAllBlank (doc.reopening t ++ t) then doc.reopened t
          else ({ doc.reopened t with trap := none, fonts := {} } : Document).emit (doc.trapped trap t)
        | none => (doc.readied t).emit ((doc.readied t).finished (doc.reopening t ++ t)) := by
  have hplain : '\\' ∉ doc.reopening t ++ t := by
    rw [List.mem_append, not_or]
    exact ⟨doc.notMem_reopening t, h⟩
  unfold textLine
  rw [renderInline_of_plain doc h]
  dsimp only
  split
  · rfl
  · cases htrap : (doc.reopened t).trap with
    | some trap =>
      dsimp only
      rw [finishLine_of_plain _ hplain]
      rfl
    | none =>
      dsimp only
      rw [finishLine_of_plain _ hplain]
      rfl

theorem writes_reopened (doc : Document) (t : Text) : Writes doc (doc.reopened t) := by
  unfold reopened
  split
  · exact ⟨_, _, _, _, _, rfl⟩
  · exact .refl doc

theorem writes_readied (doc : Document) (t : Text) : Writes doc (doc.readied t) := by
  unfold readied
  split
  · exact (doc.writes_reopened t).trans (writes_openParagraph _)
  · exact doc.writes_reopened t

/-- A line without escapes changes only what writing changes. -/
theorem writes_textLine (doc : Document) {t : Text} (h : '\\' ∉ t) : Writes doc (doc.textLine t) := by
  rw [textLine_of_plain doc h]
  split
  · exact doc.writes_closeParagraph
  · split
    · split
      · exact doc.writes_reopened t
      · have hclosed : Writes (doc.reopened t) { doc.reopened t with trap := none, fonts := {} } :=
          ⟨_, _, _, _, _, rfl⟩
        exact ((doc.writes_reopened t).trans hclosed).trans (writes_emit _ _)
    · exact (doc.writes_readied t).trans (writes_emit _ _)

theorem writes_textLines (doc : Document) {texts : List Text} (h : ∀ t ∈ texts, '\\' ∉ t) :
    Writes doc (texts.foldl textLine doc) := by
  induction texts generalizing doc with
  | nil => exact .refl doc
  | cons t texts ih =>
    have hfirst := doc.writes_textLine (h t List.mem_cons_self)
    exact hfirst.trans (ih (doc.textLine t) fun u hu => h u (List.mem_cons_of_mem t hu))

end RoffDocBook.Document

/-! Plain text is written in the same way wherever it is read: of the formatter it only matters whether text is
filled. -/
namespace RoffDocBook.Document
open Text

theorem Writes.formatter {before after : Document} (h : Writes before after) : after.formatter = before.formatter := by
  obtain ⟨_, _, _, _, _, rfl⟩ := h
  rfl

/-- A document at another place of the input, with another state of the formatter. -/
def relocated (doc : Document) (input : Input) (line : Nat) (fired : List Package) (formatter : Formatter.State) :
    Document :=
  { doc with input, line, fired, formatter }

section
variable (doc : Document) (input : Input) (line : Nat) (fired : List Package) {formatter : Formatter.State}

theorem relocated_emit (text : Text) :
    (doc.relocated input line fired formatter).emit text = (doc.emit text).relocated input line fired formatter := by
  rw [emit_eq, emit_eq]
  rfl

theorem relocated_closeParagraph :
    (doc.relocated input line fired formatter).closeParagraph =
      doc.closeParagraph.relocated input line fired formatter := by
  rw [closeParagraph_eq, closeParagraph_eq]
  change (if doc.inParagraph then _ else _) = _
  split <;> rfl

theorem relocated_openParagraph :
    (doc.relocated input line fired formatter).openParagraph =
      doc.openParagraph.relocated input line fired formatter := by
  rw [openParagraph_eq, openParagraph_eq]
  change (if doc.inParagraph then _ else _) = _
  split <;> rfl

theorem relocated_reopened (t : Text) :
    (doc.relocated input line fired formatter).reopened t =
      (doc.reopened t).relocated input line fired formatter := by
  unfold reopened
  change (if doc.reopens t then _ else _) = _
  split <;> rfl

variable (hf : formatter.fill = doc.formatter.fill)
include hf

theorem relocated_finished (t : Text) : (doc.relocated input line fired formatter).finished t = doc.finished t := by
  unfold finished
  change (let substituted := substituteChars doc.substitutes false t
    if formatter.fill then substituted else expandTabsFrom doc.tabStops {} substituted) = _
  rw [hf]

theorem relocated_readied (t : Text) :
    (doc.relocated input line fired formatter).readied t = (doc.readied t).relocated input line fired formatter := by
  unfold readied
  rw [relocated_reopened, relocated_openParagraph, (doc.writes_reopened t).formatter, ← hf]
  change (if formatter.fill then _ else _) = _
  split <;> rfl

theorem relocated_trapped (trap : Trap) (t : Text) :
    (doc.relocated input line fired formatter).trapped trap t = doc.trapped trap t := by
  have hfill : formatter.fill = (doc.reopened t).formatter.fill := by
    rw [(doc.writes_reopened t).formatter, hf]
  unfold trapped
  rw [relocated_reopened, relocated_finished _ _ _ _ hfill]
  rfl

/-- Plain text is written in the same way at every place. -/
theorem relocated_textLine {t : Text} (h : '\\' ∉ t) :
    (doc.relocated input line fired formatter).textLine t =
      (doc.textLine t).relocated input line fired formatter := by
  have hfill : formatter.fill = (doc.readied t).formatter.fill := by
    rw [(doc.writes_readied t).formatter, hf]
  rw [textLine_of_plain _ h, textLine_of_plain _ h, relocated_reopened, relocated_closeParagraph,
    relocated_readied doc input line fired hf, ← hf]
  change (if formatter.fill && isAllBlank t && doc.trap.isNone then _ else _) = _
  split
  · rfl
  · have htrap : ((doc.reopened t).relocated input line fired formatter).trap = (doc.reopened t).trap := rfl
    rw [htrap]
    cases (doc.reopened t).trap with
    | some trap =>
      dsimp only
      rw [relocated_trapped doc input line fired hf]
      change (if isAllBlank (doc.reopening t ++ t) then _ else _) = _
      split
      · rfl
      · exact relocated_emit { doc.reopened t with trap := none, fonts := {} } input line fired _
    | none =>
      dsimp only
      rw [relocated_emit, relocated_finished _ _ _ _ hfill]
      rfl

end
end RoffDocBook.Document
