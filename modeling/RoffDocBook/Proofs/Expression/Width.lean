import RoffDocBook.Proofs.Conditional.Program
import RoffDocBook.Proofs.Document.Output
import RoffDocBook.Proofs.Expression.Escaped
import RoffDocBook.Proofs.Markup.Escape

/-! The escape that measures a text. An expression measures the text as it is escaped, and running text measures it as
it was written, so that a character that is escaped is wider in an expression. -/
namespace RoffDocBook
open Text Markup

namespace Markup

theorem length_lt_escapeChar {c : Char} (h : c ∈ marks) : 1 < (escapeChar c).length := by
  have longer : ∀ c ∈ marks, 1 < (escapeChar c).length := forall_mem_marks (by decide) (by decide) (by decide)
  exact longer c h

theorem length_le_escape (t : Text) : t.length ≤ (escape t).length := by
  induction t with
  | nil => exact Nat.le_refl 0
  | cons c t ih =>
    have some := List.length_pos_iff.mpr (escapeChar_ne_nil c)
    rw [escape_cons, List.length_append, List.length_cons]
    omega

/-- Escaping leaves the length of a text as it is just where there is nothing to escape. -/
theorem length_escape_eq_iff {t : Text} : (escape t).length = t.length ↔ ∀ c ∈ t, c ∉ marks := by
  constructor
  · intro same c mem mark
    obtain ⟨before, after, rfl⟩ := List.append_of_mem mem
    have longer := length_lt_escapeChar mark
    have first := length_le_escape before
    have last := length_le_escape after
    rw [escape_append, escape_cons] at same
    simp only [List.length_append, List.length_cons] at same
    omega
  · intro plain
    rw [escape_of_forall plain]

end Markup

namespace Formatter

theorem width_cons {c : Char} (h : c ≠ '\\') (t : Text) : width (c :: t) = width t + 1 := by
  rw [width]
  · exact fun same _ => h same
  · exact fun _ _ same _ => h same

theorem width_append {part : Text} (h : '\\' ∉ part) (t : Text) : width (part ++ t) = part.length + width t := by
  induction part with
  | nil => exact (Nat.zero_add _).symm
  | cons c part ih =>
    rw [List.mem_cons, not_or] at h
    rw [List.cons_append, width_cons (Ne.symm h.1), ih h.2, List.length_cons]
    omega

theorem backslash_notMem_escapeChar {c : Char} (h : c ≠ '\\') : '\\' ∉ escapeChar c := by
  have absent : '\\' ∉ escape [c] := notMem_escape (by decide) fun mem => h (List.mem_singleton.mp mem).symm
  rwa [escape_singleton] at absent

/-- A backslash hides one character of what stands for the character after it. -/
theorem width_hidden (c : Char) (t : Text) :
    width ('\\' :: (escapeChar c ++ t)) + 1 = (escapeChar c).length + width t := by
  by_cases mark : c ∈ marks
  · obtain ⟨name, reference⟩ := exists_reference mark
    have absent : '\\' ∉ escapeChar c := backslash_notMem_escapeChar (ne_of_mem_of_not_mem mark (by decide))
    rw [reference, List.mem_cons, not_or] at absent
    rw [reference, List.cons_append, width, width_append absent.2, List.length_cons]
    omega
  · rw [escapeChar_of_notMem mark, List.singleton_append, width, List.length_singleton]
    omega

/-- A text gets as much wider as it gets longer. Of a reference after a backslash the ampersand is hidden, as the
character is that it stands for. -/
theorem width_escape (t : Text) : width (escape t) + t.length = width t + (escape t).length := by
  fun_induction width t with
  | case1 => rfl
  | case2 => rfl
  | case3 c rest ih =>
    have hidden := width_hidden c (escape rest)
    rw [escape_cons_of_notMem (by decide), escape_cons]
    simp only [List.length_append, List.length_cons]
    omega
  | case4 c rest single pair ih =>
    have plain : c ≠ '\\' := by
      rintro rfl
      cases rest with
      | nil => exact single rfl rfl
      | cons d rest => exact pair d rest rfl rfl
    rw [escape_cons, width_append (backslash_notMem_escapeChar plain), List.length_append, List.length_cons]
    omega

/-- The escape that measures a text between two of a character. -/
def measuring (delimiter : Char) (t : Text) : Text :=
  '\\' :: 'w' :: delimiter :: t ++ [delimiter]

variable {delimiter : Char} {t : Text}

theorem measuring_append (delimiter : Char) (t after : Text) :
    measuring delimiter t ++ after = '\\' :: 'w' :: delimiter :: (t ++ delimiter :: after) := by
  simp only [measuring, List.cons_append, List.append_assoc, List.nil_append]

theorem escape_measuring (h : delimiter ∉ marks) (t : Text) :
    escape (measuring delimiter t) = measuring delimiter (escape t) := by
  rw [measuring, List.cons_append, List.cons_append, escape_cons_of_notMem (by decide),
    escape_cons_of_notMem (by decide), List.cons_append, escape_cons_of_notMem h, escape_append, escape_singleton,
    escapeChar_of_notMem h]
  rfl

theorem readTerm_measuring (h : delimiter ∉ t) (fuel : Nat) (s : State) (after : Text) :
    readTerm (fuel + 1) s (measuring delimiter t ++ after) = (.ok (Int64.ofNat (width t), after), s) := by
  rw [measuring_append, readTerm_width, spanUntil_append h]
  rfl

theorem evaluate_measuring (h : delimiter ∉ t) (s : State) :
    s.evaluate (measuring delimiter t) = (.ok (Int64.ofNat (width t)), s) := by
  apply Conditional.evaluate_of_readTerm
  have whole := readTerm_measuring h (2 * (measuring delimiter t).length) s []
  rwa [List.append_nil] at whole

end Formatter

namespace Document
open Formatter
variable {delimiter : Char} {t : Text}

theorem pieces_measuring (h : delimiter ∉ t) (after : Text) :
    Inline.pieces (measuring delimiter t ++ after) = .width (unescape t) :: Inline.pieces after := by
  have argument : Inline.readDelimited (delimiter :: (t ++ delimiter :: after)) = (t, after) := by
    rw [Inline.readDelimited, spanUntil_append h]
    rfl
  rw [measuring_append, Inline.pieces, argument]
  simp [Inline.dropsAlone]

theorem renderInline_measuring (doc : Document) (h : delimiter ∉ t) (after : Text) :
    (doc.renderInline (measuring delimiter t ++ after)).1 =
      doc.reopening (measuring delimiter t ++ after) ++ ofNat (width (unescape t)) ++
        ((doc.reopened (measuring delimiter t ++ after)).renderPieces (Inline.pieces after)).1 := by
  rw [List.append_assoc]
  unfold renderInline
  rw [pieces_measuring h]
  rfl

/-- A text is measured as it is escaped in an expression, and as it was written in running text. The two differ by what
escaping adds to the text, so that they agree just where no character is escaped. -/
theorem measuring_escape (doc : Document) (s : State) (hdelimiter : delimiter ∉ Markup.marks) (h : delimiter ∉ escape t)
    (after : Text) :
    let line := escape (measuring delimiter t)
    (∀ fuel, readTerm (fuel + 1) s (line ++ after) = (.ok (Int64.ofNat (width (escape t)), after), s)) ∧
      s.evaluate line = (.ok (Int64.ofNat (width (escape t))), s) ∧
      (doc.renderInline (line ++ after)).1 = doc.reopening (line ++ after) ++ ofNat (width t) ++
        ((doc.reopened (line ++ after)).renderPieces (Inline.pieces after)).1 ∧
      width (escape t) + t.length = width t + (escape t).length ∧
      (width (escape t) = width t ↔ ∀ c ∈ t, c ∉ Markup.marks) := by
  intro line
  have written : line = measuring delimiter (escape t) := escape_measuring hdelimiter t
  have restored : unescape (escape t) = t := by
    have whole := unescape_escape_append t []
    have nothing : unescape [] = [] := rfl
    rwa [nothing, List.append_nil, List.append_nil] at whole
  have wider := width_escape t
  rw [written]
  refine ⟨fun fuel => readTerm_measuring h fuel s after, evaluate_measuring h s, ?printed, wider, ?alike⟩
  case printed =>
    rw [renderInline_measuring doc h, restored]
  case alike =>
    rw [← length_escape_eq_iff]
    omega

/-- A text with a mark in it is wider in an expression, and one without marks is as wide. -/
theorem measuring_escape_marked :
    let page := start "t.1" {} {}
    let marked := escape (measuring '\'' "a<b".toList)
    let plain := escape (measuring '|' "a\\-b".toList)
    '\'' ∉ escape "a<b".toList ∧ '|' ∉ escape "a\\-b".toList ∧
      page.formatter.evaluate marked = (.ok 6, page.formatter) ∧ (page.renderInline marked).1 = ['3'] ∧
      page.formatter.evaluate plain = (.ok 2, page.formatter) ∧ (page.renderInline plain).1 = ['2'] := by
  intro page marked plain
  have outside : '\'' ∉ escape "a<b".toList := by decide
  have outside' : '|' ∉ escape "a\\-b".toList := by decide
  obtain ⟨-, value, printed, -, -⟩ := measuring_escape page page.formatter (by decide) outside []
  obtain ⟨-, value', printed', -, -⟩ := measuring_escape page page.formatter (by decide) outside' []
  rw [Inline.pieces, List.append_nil] at printed printed'
  exact ⟨outside, outside', value, printed, value', printed'⟩

end Document

end RoffDocBook
