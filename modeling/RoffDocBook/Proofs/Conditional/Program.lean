import Mathlib.Data.List.TakeWhile
import RoffDocBook.Formatter.Condition
import RoffDocBook.Proofs.Number.Rounding
import RoffDocBook.Text.Basic

/-! Conditional requests as a structured language: programs of text and conditionals, the lines that they are written
as, and the texts that they select. -/
namespace RoffDocBook.Conditional
open Text

/-- A line of text that has no escape, and neither a blank nor a control character at its start. -/
structure PlainLine where
  first : Char
  rest : Text
  notBlank : isBlank first = false
  notControl : first ≠ '.' ∧ first ≠ '\''
  unescaped : '\\' ∉ first :: rest

def PlainLine.text (line : PlainLine) : Text :=
  line.first :: line.rest

theorem PlainLine.notMem (line : PlainLine) : '\\' ∉ line.text :=
  line.unescaped

/-- A text of decimal digits, at least one. -/
structure Numeral where
  first : Char
  rest : Text
  digits : (first :: rest).all Char.isDigit = true

namespace Numeral

def text (numeral : Numeral) : Text :=
  numeral.first :: numeral.rest

def value (numeral : Numeral) : Nat :=
  numeral.text.foldl (fun n c => 10 * n + (c.toNat - '0'.toNat)) 0

end Numeral

inductive Sign where
  | none
  | plus
  | minus

inductive Guard where
  | integer (sign : Sign) (numeral : Numeral)
  /-- The output is for a terminal. -/
  | nroff
  /-- The output is typeset. -/
  | troff

namespace Guard

def text : Guard → Text
  | integer .none numeral => numeral.text
  | integer .plus numeral => '+' :: numeral.text
  | integer .minus numeral => '-' :: numeral.text
  | nroff => ['n']
  | troff => ['t']

/-- An integer holds if it is positive. -/
def holds : Guard → Bool
  | integer .minus _ => false
  | integer _ numeral => 0 < numeral.value
  | nroff => true
  | troff => false

end Guard

mutual

inductive Program where
  | done
  | text (plain : PlainLine) (rest : Program)
  | ifThen (guard : Guard) (arm : Arm) (rest : Program)
  | ifElse (guard : Guard) (first second : Arm) (rest : Program)

/-- What a guard governs: a text on the line of the request, or a block of lines. -/
inductive Arm where
  | line (plain : PlainLine)
  | block (body : Program)

end

/-- What stands of an arm on the line of the request that governs it. -/
def Arm.head : Arm → Text
  | .line plain => plain.text
  | .block _ => ['\\', '{']

/-- The control line of a request with what follows its name. -/
def controlLine (name : String) (rest : Text) : Text :=
  '.' :: (name.toList ++ ' ' :: rest)

/-- What follows the name of a request that has a guard. -/
def guarded (guard : Guard) (arm : Arm) : Text :=
  guard.text ++ ' ' :: arm.head

/-- The line that closes a block. -/
def blockEnd : Text := ['.', '\\', '}']

mutual

/-- The lines that a program is written as. -/
def Program.lines : Program → List Text
  | .done => []
  | .text plain rest => plain.text :: rest.lines
  | .ifThen guard arm rest => controlLine "if" (guarded guard arm) :: (arm.tail ++ rest.lines)
  | .ifElse guard first second rest =>
    controlLine "ie" (guarded guard first) ::
      (first.tail ++ controlLine "el" second.head :: (second.tail ++ rest.lines))

/-- The lines of an arm after the one that it begins on. -/
def Arm.tail : Arm → List Text
  | .line _ => []
  | .block body => body.lines ++ [blockEnd]

end

mutual

/-- The texts that a program selects, in order. -/
def Program.selected : Program → List Text
  | .done => []
  | .text plain rest => plain.text :: rest.selected
  | .ifThen guard arm rest => (if guard.holds then arm.selected else []) ++ rest.selected
  | .ifElse guard first second rest =>
    (if guard.holds then first.selected else second.selected) ++ rest.selected

def Arm.selected : Arm → List Text
  | .line plain => [plain.text]
  | .block body => body.selected

end

mutual

theorem notMem_selected (program : Program) : ∀ t ∈ program.selected, '\\' ∉ t := by
  cases program with
  | done => simp [Program.selected]
  | text plain rest =>
    intro t ht
    rcases List.mem_cons.mp ht with rfl | ht
    · exact plain.notMem
    · exact notMem_selected rest t ht
  | ifThen guard arm rest =>
    intro t ht
    rcases List.mem_append.mp ht with ht | ht
    · split at ht
      · exact notMem_arm arm t ht
      · cases ht
    · exact notMem_selected rest t ht
  | ifElse guard first second rest =>
    intro t ht
    rcases List.mem_append.mp ht with ht | ht
    · split at ht
      · exact notMem_arm first t ht
      · exact notMem_arm second t ht
    · exact notMem_selected rest t ht

theorem notMem_arm (arm : Arm) : ∀ t ∈ arm.selected, '\\' ∉ t := by
  cases arm with
  | line plain =>
    intro t ht
    rw [List.mem_singleton.mp ht]
    exact plain.notMem
  | block body => exact notMem_selected body

end

end RoffDocBook.Conditional

/-! Guards are evaluated to what they mean, without a change of the formatter. -/
namespace RoffDocBook.Conditional
open Text Formatter

private theorem ofNat_mem_digits :
    ∀ n < 58, 48 ≤ n → Char.ofNat n ∈ ['0', '1', '2', '3', '4', '5', '6', '7', '8', '9'] := by
  decide

/-- A digit ends no guard and begins no other one. -/
theorem digit_facts {c : Char} (h : c.isDigit = true) :
    isBlank c = false ∧ isSpaceOrTab c = false ∧ isDeviceLetter c = false ∧ "rdcmFS".toList.elem c = false ∧
      isStringDelimiter c = false ∧ isNumeralChar c = true ∧
      c ≠ '\\' ∧ c ≠ '(' ∧ c ≠ ')' ∧ c ≠ '.' ∧ c ≠ '!' ∧ c ≠ '+' ∧ c ≠ '-' := by
  simp only [Char.isDigit, ge_iff_le, Bool.and_eq_true, decide_eq_true_eq, UInt32.le_iff_toNat_le] at h
  have hm : c ∈ ['0', '1', '2', '3', '4', '5', '6', '7', '8', '9'] := by
    rw [← Char.ofNat_toNat c]
    exact ofNat_mem_digits c.toNat (Nat.lt_succ_of_le h.2) h.1
  simp only [List.mem_cons, List.not_mem_nil, or_false] at hm
  rcases hm with rfl | rfl | rfl | rfl | rfl | rfl | rfl | rfl | rfl | rfl <;> decide

namespace Numeral
variable (numeral : Numeral)

theorem digit_of_mem {c : Char} (h : c ∈ numeral.text) : c.isDigit = true :=
  List.all_eq_true.mp numeral.digits c h

theorem splitOn_point : splitOn '.' numeral.text = [numeral.text] := by
  have hfree : ∀ c ∈ numeral.text, (c == '.') = false := by
    intro c hc
    obtain ⟨_, _, _, _, _, _, _, _, _, hpoint, _⟩ := digit_facts (numeral.digit_of_mem hc)
    exact beq_eq_false_iff_ne.mpr hpoint
  unfold splitOn
  generalize numeral.text = t at hfree
  induction t with
  | nil => rfl
  | cons c cs ih =>
    rw [splitBy, ih fun d hd => hfree d (List.mem_cons_of_mem c hd)]
    simp [hfree c List.mem_cons_self]

/-- The word that a numeral is read as. -/
theorem formatter_numeral :
    Formatter.numeral numeral.text = Word.clamp (Binary64.roundUp (Binary64.nearest (numeral.value, 1))) := by
  have hempty : numeral.text.isEmpty = false := rfl
  have hall : numeral.text.all Char.isDigit = true := numeral.digits
  have hd : Binary64.decimal? numeral.text = some (numeral.value, 1) := by
    rw [Binary64.decimal?, numeral.splitOn_point]
    simp only [hempty, hall, Bool.not_true, Bool.or_false, Bool.false_eq_true, if_false]
    rfl
  rw [Formatter.numeral, hd]

theorem formatter_numeral_pos_iff : 0 < Formatter.numeral numeral.text ↔ 0 < numeral.value := by
  rw [formatter_numeral, Word.clamp_pos_iff]
  constructor
  · intro h
    rcases Nat.eq_zero_or_pos numeral.value with hv | hv
    · rw [hv, Binary64.roundUp_nearest_zero] at h
      exact absurd h (Nat.lt_irrefl 0)
    · exact hv
  · exact Binary64.roundUp_nearest_pos

theorem readNumber_text : readNumber numeral.text = (Formatter.numeral numeral.text, []) := by
  have hnum : ∀ c ∈ numeral.text, isNumeralChar c = true := by
    intro c hc
    obtain ⟨_, _, _, _, _, h, _⟩ := digit_facts (numeral.digit_of_mem hc)
    exact h
  have htake : numeral.text.takeWhile isNumeralChar = numeral.text :=
    List.takeWhile_eq_self_iff.mpr hnum
  have hdrop : numeral.text.dropWhile isNumeralChar = [] :=
    List.dropWhile_eq_nil_iff.mpr hnum
  rw [readNumber, htake, hdrop]

end Numeral

theorem readTerm_digit {c : Char} (h : c.isDigit = true) (fuel : Nat) (s : State) (rest : Text) :
    readTerm (fuel + 1) s (c :: rest) = (.ok (readNumber (c :: rest)), s) := by
  obtain ⟨_, hspace, _, _, _, _, hb, ho, _, _, hn, hp, hm⟩ := digit_facts h
  have hdrop : (c :: rest).dropWhile isSpaceOrTab = c :: rest := by simp [hspace]
  rw [readTerm, hdrop]
  split <;> simp_all

theorem readTerm_numeral (numeral : Numeral) (fuel : Nat) (s : State) :
    readTerm (fuel + 1) s numeral.text = (.ok (Formatter.numeral numeral.text, []), s) := by
  rw [← numeral.readNumber_text]
  exact readTerm_digit (numeral.digit_of_mem List.mem_cons_self) fuel s numeral.rest

/-- A text that is one term has the value of the term. -/
theorem evaluate_of_readTerm {s : State} {t : Text} {value : Int64}
    (h : readTerm (2 * t.length + 1) s t = (.ok (value, []), s)) : s.evaluate t = (.ok value, s) := by
  have hop : readOperations (2 * t.length + 1) s value [] = (.ok (value, []), s) := rfl
  rw [State.evaluate, readExpression, h]
  dsimp only
  rw [hop]

namespace Guard

/-- What an integer is read as. -/
def word (sign : Sign) (numeral : Numeral) : Int64 :=
  match sign with
  | .minus => -Formatter.numeral numeral.text
  | _ => Formatter.numeral numeral.text

theorem readTerm_minus {fuel : Nat} {s next : State} {t rest : Text} {value : Int64}
    (h : readTerm fuel s t = (.ok (value, rest), next)) :
    readTerm (fuel + 1) s ('-' :: t) = (.ok (-value, rest), next) := by
  have hkept : ('-' :: t).dropWhile isSpaceOrTab = '-' :: t := rfl
  rw [readTerm, hkept]
  simp only [h]

theorem evaluate_integer (s : State) (sign : Sign) (numeral : Numeral) :
    s.evaluate (integer sign numeral).text = (.ok (word sign numeral), s) := by
  apply evaluate_of_readTerm
  cases sign with
  | none => exact readTerm_numeral numeral _ s
  | plus =>
    rw [show 2 * (integer .plus numeral).text.length + 1 = 2 * numeral.text.length + 2 + 1 by
      simp only [text, List.length_cons]; omega]
    change readTerm (2 * numeral.text.length + 1 + 1) s numeral.text = _
    exact readTerm_numeral numeral _ s
  | minus =>
    rw [show 2 * (integer .minus numeral).text.length + 1 = 2 * numeral.text.length + 2 + 1 by
      simp only [text, List.length_cons]; omega]
    exact readTerm_minus (readTerm_numeral numeral (2 * numeral.text.length + 1) s)

theorem word_pos_iff (sign : Sign) (numeral : Numeral) :
    0 < word sign numeral ↔ (integer sign numeral).holds = true := by
  cases sign with
  | none => exact numeral.formatter_numeral_pos_iff.trans (by simp [holds])
  | plus => exact numeral.formatter_numeral_pos_iff.trans (by simp [holds])
  | minus =>
    simp only [word, numeral.formatter_numeral, holds, Bool.false_eq_true, iff_false]
    exact Word.not_pos_neg_clamp _

/-- The characters of an integer. -/
theorem integer_chars {sign : Sign} {numeral : Numeral} {c : Char} (h : c ∈ (integer sign numeral).text) :
    isBlank c = false ∧ c ≠ '\\' ∧ c ≠ '(' ∧ c ≠ ')' := by
  have hdigits : ∀ d ∈ numeral.text, isBlank d = false ∧ d ≠ '\\' ∧ d ≠ '(' ∧ d ≠ ')' := by
    intro d hd
    obtain ⟨hb, _, _, _, _, _, he, ho, hc, _⟩ := digit_facts (numeral.digit_of_mem hd)
    exact ⟨hb, he, ho, hc⟩
  cases sign with
  | none => exact hdigits c h
  | plus =>
    rcases List.mem_cons.mp h with rfl | h
    · decide
    · exact hdigits c h
  | minus =>
    rcases List.mem_cons.mp h with rfl | h
    · decide
    · exact hdigits c h

end Guard

theorem guardExtent_cons {c : Char} (h : isBlank c = false ∧ c ≠ '\\' ∧ c ≠ '(' ∧ c ≠ ')') {rest : Text}
    {found : Text × Text} (hf : guardExtent 0 none rest = found) :
    guardExtent 0 none (c :: rest) = (c :: found.1, found.2) := by
  obtain ⟨hb, he, ho, hc⟩ := h
  unfold guardExtent
  split
  · rename_i hn
    cases hn
  · rename_i hn _
    cases hn
  · rename_i hn
    exact absurd (List.cons.inj hn).1 he
  · rename_i hn
    exact absurd (List.cons.inj hn).1 he
  · rename_i hn
    exact absurd (List.cons.inj hn).1 he
  · rename_i hn
    obtain ⟨rfl, rfl⟩ := List.cons.inj hn
    simp [hb, ho, hc, hf]

theorem guardExtent_append {t : Text} (h : ∀ c ∈ t, isBlank c = false ∧ c ≠ '\\' ∧ c ≠ '(' ∧ c ≠ ')') (rest : Text) :
    guardExtent 0 none (t ++ ' ' :: rest) = (t, ' ' :: rest) := by
  induction t with
  | nil => rfl
  | cons c cs ih =>
    exact guardExtent_cons (h c List.mem_cons_self) (ih fun d hd => h d (List.mem_cons_of_mem c hd))

/-- The first character of an integer does not let it be taken for another kind of guard. -/
theorem integer_first (sign : Sign) (numeral : Numeral) :
    ∃ c cs, (Guard.integer sign numeral).text = c :: cs ∧ isBlank c = false ∧ c ≠ '!' ∧ isDeviceLetter c = false ∧
      "rdcmFS".toList.elem c = false ∧ isStringDelimiter c = false := by
  cases sign with
  | none =>
    obtain ⟨hb, _, hd, he, hs, _, _, _, _, _, hn, _⟩ := digit_facts (numeral.digit_of_mem List.mem_cons_self)
    exact ⟨numeral.first, numeral.rest, rfl, hb, hn, hd, he, hs⟩
  | plus => exact ⟨'+', numeral.text, rfl, by decide⟩
  | minus => exact ⟨'-', numeral.text, rfl, by decide⟩

theorem guardValue_integer (s : State) (sign : Sign) (numeral : Numeral) (rest : Text) :
    s.guardValue ((Guard.integer sign numeral).text ++ ' ' :: rest) =
      (.ok (Guard.integer sign numeral).holds, ' ' :: rest, s) := by
  have hextent : guardExtent 0 none ((Guard.integer sign numeral).text ++ ' ' :: rest) = _ :=
    guardExtent_append (fun _ hc => Guard.integer_chars hc) rest
  have hvalue := Guard.evaluate_integer s sign numeral
  have hpos : decide (0 < Guard.word sign numeral) = (Guard.integer sign numeral).holds := by
    rw [Bool.eq_iff_iff, decide_eq_true_iff, Guard.word_pos_iff]
  obtain ⟨c, cs, ht, _, _, hd, he, hs⟩ := integer_first sign numeral
  rw [ht] at hextent hvalue ⊢
  rw [List.cons_append] at hextent ⊢
  rw [State.guardValue]
  simp only [hd, he, hs, Bool.false_and, Bool.false_eq_true, if_false, hextent, hvalue]
  rw [← hpos]
  rfl

/-- A guard is evaluated to what it means, and the statement after it is what is left. -/
theorem condition_guard (s : State) (guard : Guard) {rest : Text} (h : trimStart rest = rest) :
    s.condition (guard.text ++ ' ' :: rest) = ({ value := guard.holds, rest := rest, error := none }, s) := by
  have hrest : trimStart (' ' :: rest) = rest := h
  cases guard with
  | nroff =>
    change (({ value := true, rest := trimStart (' ' :: rest), error := none }, s) : ConditionOutcome × State) = _
    rw [hrest]
    rfl
  | troff =>
    change (({ value := false, rest := trimStart (' ' :: rest), error := none }, s) : ConditionOutcome × State) = _
    rw [hrest]
    rfl
  | integer sign numeral =>
    have hvalue := guardValue_integer s sign numeral rest
    obtain ⟨c, cs, ht, hb, hn, _⟩ := integer_first sign numeral
    have htrim : trimStart (c :: cs ++ ' ' :: rest) = c :: cs ++ ' ' :: rest := by simp [trimStart, hb]
    rw [ht] at hvalue ⊢
    have hnegated : ((c :: cs ++ ' ' :: rest).head? == some '!') = false := by simpa using hn
    simp only [State.condition, htrim, hnegated, Bool.false_eq_true, if_false, hvalue, Bool.bne_false, hrest]

end RoffDocBook.Conditional
