import RoffDocBook.Formatter.Expression
import RoffDocBook.Markup.Escape
import RoffDocBook.Proofs.Conditional.Program
import RoffDocBook.Proofs.Text.Search

/-! Numeric expressions as trees: how a tree is written, with blanks between its parts and each operator plain or
escaped, and what it is worth when its operations are carried out from left to right. -/
namespace RoffDocBook.Formatter
open Text

/-- Spaces and tabs. -/
structure Blanks where
  text : Text
  blank : ∀ c ∈ text, isSpaceOrTab c = true

/-- A guard about the output device as a term. -/
inductive Device where
  | nroff | troff | odd | even | vroff
  deriving DecidableEq

namespace Device

def letter : Device → Char
  | nroff => 'n'
  | troff => 't'
  | odd => 'o'
  | even => 'e'
  | vroff => 'v'

def holds : Device → Bool
  | nroff | odd => true
  | troff | even | vroff => false

end Device

namespace Operator

/-- The plain spellings. -/
def written : Operator → List Text
  | add => [['+']]
  | sub => [['-']]
  | mul => [['*']]
  | div => [['/']]
  | rem => [['%']]
  | and => [['&']]
  | or => [[':']]
  | eq => [['='], ['=', '=']]
  | lt => [['<']]
  | gt => [['>']]
  | le => [['<', '=']]
  | ge => [['>', '=']]
  | min => [['<', '?']]
  | max => [['>', '?']]

end Operator

/-- An operator in one of its spellings. -/
structure Symbol where
  operator : Operator
  plain : Text
  written : plain ∈ operator.written
  escaped : Bool

def Symbol.text (symbol : Symbol) : Text :=
  if symbol.escaped then Markup.escape symbol.plain else symbol.plain

mutual

inductive Term where
  | spaced (blanks : Blanks) (term : Term)
  | not (operand : Term)
  | negative (operand : Term)
  | positive (operand : Term)
  | group (expression : Expression)
  /-- A number that a floating-point number with a significand of 53 bits holds exactly. -/
  | number (numeral : Conditional.Numeral) (exact : numeral.value < Nat.pow 2 53)
  | device (device : Device)

inductive Expression where
  | term (term : Term)
  | operation (before : Expression) (blanks : Blanks) (symbol : Symbol) (operand : Term)

end

mutual

/-- How a term is written. -/
def Term.text : Term → Text
  | .spaced blanks term => blanks.text ++ term.text
  | .not operand => '!' :: operand.text
  | .negative operand => '-' :: operand.text
  | .positive operand => '+' :: operand.text
  | .group expression => '(' :: (expression.text ++ [')'])
  | .number numeral _ => numeral.text
  | .device device => [device.letter]

/-- How an expression is written. -/
def Expression.text : Expression → Text
  | .term term => term.text
  | .operation before blanks symbol operand => before.text ++ (blanks.text ++ (symbol.text ++ operand.text))

end

/-- Why a tree has no value. -/
inductive Fault where
  /-- A division or a remainder by zero, or with a quotient out of range. -/
  | division
  /-- A minus sign before the least word. -/
  | negation
  deriving DecidableEq

/-- The nearest whole number that a word of 64 bits can hold. -/
def saturate (n : Int) : Int :=
  max Word.least (min Word.greatest n)

/-- One for a statement that is true and zero for one that is not. -/
def truth (p : Prop) [Decidable p] : Int :=
  if p then 1 else 0

/-- The value of an operation on whole numbers, if it has one. -/
def Operator.value? (op : Operator) (a b : Int) : Option Int :=
  match op with
  | add => some (saturate (a + b))
  | sub => some (saturate (a - b))
  | mul => some (saturate (a * b))
  | div => if b = 0 ∨ (a = Word.least ∧ b = -1) then none else some (a.tdiv b)
  | rem => if b = 0 ∨ (a = Word.least ∧ b = -1) then none else some (a.tmod b)
  | and => some (truth (0 < a ∧ 0 < b))
  | or => some (truth (0 < a ∨ 0 < b))
  | eq => some (truth (a = b))
  | lt => some (truth (a < b))
  | gt => some (truth (a > b))
  | le => some (truth (a ≤ b))
  | ge => some (truth (a ≥ b))
  | min => some (Min.min a b)
  | max => some (Max.max a b)

mutual

/-- The value of a term, or the first fault on the way to it. -/
def Term.value : Term → Except Fault Int
  | .spaced _ term => term.value
  | .not operand => operand.value.map fun a => truth (a ≤ 0)
  | .negative operand => operand.value.bind fun a => if a = Word.least then .error .negation else .ok (-a)
  | .positive operand => operand.value
  | .group expression => expression.value
  | .number numeral _ => .ok numeral.value
  | .device device => .ok (truth (device.holds = true))

/-- The value of an expression with its operations carried out from left to right, or the first fault on the way. -/
def Expression.value : Expression → Except Fault Int
  | .term term => term.value
  | .operation before _ symbol operand =>
    before.value.bind fun a => operand.value.bind fun b =>
      match symbol.operator.value? a b with
      | some value => .ok value
      | none => .error .division

end

/-- An operation has no value exactly where it divides by zero or the quotient is out of range. -/
theorem Operator.value?_eq_none_iff (op : Operator) (a b : Int) :
    op.value? a b = none ↔ (op = .div ∨ op = .rem) ∧ (b = 0 ∨ (a = Word.least ∧ b = -1)) := by
  cases op <;> simp [value?, or_iff_not_imp_left]

end RoffDocBook.Formatter

/-! A written expression is evaluated to the value of its tree. Each operator is told from the term after it, and what
is read of a term does not depend on what follows. -/
namespace RoffDocBook.Formatter
open Text

/-! Operators and numbers are read as they are written. -/
namespace Operator

/-- The characters by which one spelling goes on where another one ends. -/
def continuing : List Char :=
  ['=', '?', 'l', 'g', 'a']

theorem read?_spelling {entry : String × Operator} (h : entry ∈ spellings) {rest : Text}
    (hr : ∀ c ∈ rest.head?, c ∉ continuing) : read? (entry.1.toList ++ rest) = some (entry.2, rest) := by
  revert entry
  cases rest with
  | nil => decide
  | cons c cs =>
    have hc : c ∉ continuing := hr c rfl
    simp only [continuing, List.mem_cons, List.not_mem_nil, or_false, not_or] at hc
    obtain ⟨hequal, hquestion, hl, hg, ha⟩ := hc
    simp [spellings, read?, dropStart?, Ne.symm hequal, Ne.symm hquestion, Ne.symm hl, Ne.symm hg, Ne.symm ha]

/-- Every operator is listed in its plain and in its escaped spellings. -/
theorem mem_spellings (op : Operator) : ∀ plain ∈ op.written, ∀ escaped : Bool,
    ∃ entry ∈ spellings, entry.1.toList = (if escaped then Markup.escape plain else plain) ∧ entry.2 = op := by
  cases op <;> decide

theorem read?_symbol (symbol : Symbol) {rest : Text} (hr : ∀ c ∈ rest.head?, c ∉ continuing) :
    read? (symbol.text ++ rest) = some (symbol.operator, rest) := by
  obtain ⟨entry, he, htext, hop⟩ := mem_spellings symbol.operator symbol.plain symbol.written symbol.escaped
  rw [Symbol.text, ← htext, read?_spelling he hr, hop]

/-- A spelling begins with a character that neither a number nor a blank goes on with. -/
theorem head_symbol (symbol : Symbol) :
    ∃ c cs, symbol.text = c :: cs ∧ isNumeralChar c = false ∧ isUnit c = false ∧ isSpaceOrTab c = false := by
  have hfirst : ∀ entry ∈ spellings, ∃ c cs, entry.1.toList = c :: cs ∧ isNumeralChar c = false ∧ isUnit c = false ∧
      isSpaceOrTab c = false := by
    simp [spellings, isNumeralChar, isUnit, isSpaceOrTab]
  obtain ⟨entry, he, htext, _⟩ := mem_spellings symbol.operator symbol.plain symbol.written symbol.escaped
  rw [Symbol.text, ← htext]
  exact hfirst entry he

theorem read?_nil : read? [] = none := by
  decide

theorem read?_close (rest : Text) : read? (')' :: rest) = none := by
  simp [spellings, read?, dropStart?]

end Operator

/-- A character that ends a number is no part of one. -/
def Ends (rest : Text) : Prop :=
  ∀ c ∈ rest.head?, isNumeralChar c = false ∧ isUnit c = false

theorem ends_nil : Ends [] := by
  simp [Ends]

theorem ends_cons {c : Char} (h : isNumeralChar c = false ∧ isUnit c = false) (rest : Text) : Ends (c :: rest) := by
  simpa [Ends] using h

theorem readNumber_append (numeral : Conditional.Numeral) {rest : Text} (hr : Ends rest) :
    readNumber (numeral.text ++ rest) = (Formatter.numeral numeral.text, rest) := by
  have hnum : ∀ c ∈ numeral.text, isNumeralChar c = true := by
    intro c hc
    obtain ⟨_, _, _, _, _, h, _⟩ := Conditional.digit_facts (numeral.digit_of_mem hc)
    exact h
  rw [readNumber, List.takeWhile_append_of_pos hnum, List.dropWhile_append_of_pos hnum]
  cases rest with
  | nil => simp
  | cons c cs =>
    obtain ⟨hchar, hunit⟩ := hr c rfl
    simp [hchar, hunit]

theorem toInt_numeral {numeral : Conditional.Numeral} (h : numeral.value < Nat.pow 2 53) :
    (Formatter.numeral numeral.text).toInt = numeral.value := by
  have hbound : numeral.value < 9007199254740992 := h
  rw [numeral.formatter_numeral, Binary64.roundUp_nearest h, Word.toInt_clamp]
  simp only [Word.least, Word.greatest]
  omega

/-! Operations on words have the values of the operations on whole numbers. -/

theorem toInt_ofBool {b : Bool} {p : Prop} [Decidable p] (h : b = true ↔ p) : (Word.ofBool b).toInt = truth p := by
  cases b with
  | false => simp [Word.ofBool, truth, ← h]
  | true => simp [Word.ofBool, truth, ← h]

theorem toInt_clamp_eq (n : Int) : (Word.clamp n).toInt = saturate n :=
  Word.toInt_clamp n

theorem toInt_neg {word : Int64} (h : word.toInt ≠ Word.least) : (-word).toInt = -word.toInt := by
  have hlow := word.le_toInt
  have hhigh := word.toInt_lt
  rw [Word.least] at h
  rw [Int64.toInt_neg, Int.bmod_eq_of_le] <;> omega

/-- A quotient that is in the range of a word; only the least word over minus one leaves the range. -/
theorem toInt_tdiv {a b : Int64} (h : ¬ (b.toInt = 0 ∨ (a.toInt = Word.least ∧ b.toInt = -1))) :
    (Int64.ofInt (a.toInt.tdiv b.toInt)).toInt = a.toInt.tdiv b.toInt := by
  have hlow := a.le_toInt
  have hhigh := a.toInt_lt
  have habs : (a.toInt.tdiv b.toInt).natAbs = a.toInt.natAbs / b.toInt.natAbs := Int.natAbs_tdiv _ _
  have hle : a.toInt.natAbs / b.toInt.natAbs ≤ a.toInt.natAbs := Nat.div_le_self _ _
  rw [Word.least] at h
  apply Int64.toInt_ofInt_of_le
  · omega
  · by_cases hone : b.toInt = 1
    · rw [hone, Int.tdiv_one]
      exact hhigh
    · by_cases hleast : a.toInt = -2 ^ 63
      · have hhalf : a.toInt.natAbs / b.toInt.natAbs ≤ a.toInt.natAbs / 2 :=
          Nat.div_le_div_left (by omega) (by omega)
        omega
      · omega

/-- A remainder is smaller than its divisor, so that it is in the range of a word. -/
theorem toInt_tmod {a b : Int64} (h : b.toInt ≠ 0) :
    (Int64.ofInt (a.toInt.tmod b.toInt)).toInt = a.toInt.tmod b.toInt := by
  have hlow := b.le_toInt
  have hhigh := b.toInt_lt
  have habs : (a.toInt.tmod b.toInt).natAbs = a.toInt.natAbs % b.toInt.natAbs := Int.natAbs_tmod _ _
  have hlt : a.toInt.natAbs % b.toInt.natAbs < b.toInt.natAbs := Nat.mod_lt _ (by omega)
  apply Int64.toInt_ofInt_of_le <;> omega

theorem eq_zero_iff (word : Int64) : word = 0 ↔ word.toInt = 0 := by
  rw [← Int64.toInt_inj, Int64.toInt_zero]

theorem eq_minusOne_iff (word : Int64) : word = -1 ↔ word.toInt = -1 := by
  rw [← Int64.toInt_inj]
  rfl

/-- An operation on words has the value of the operation on whole numbers, and fails where that has none. -/
theorem apply_eq (op : Operator) (a b : Int64) :
    match op.value? a.toInt b.toInt with
    | some value => ∃ word : Int64, word.toInt = value ∧ op.apply a b = .ok word
    | none => op.apply a b = .error .divisionByZero := by
  cases op with
  | add => exact ⟨_, toInt_clamp_eq _, rfl⟩
  | sub => exact ⟨_, toInt_clamp_eq _, rfl⟩
  | mul => exact ⟨_, toInt_clamp_eq _, rfl⟩
  | div =>
    by_cases h : b.toInt = 0 ∨ (a.toInt = Word.least ∧ b.toInt = -1)
    · have hnone : Word.div? a b = none := by
        simpa [Word.div?, eq_zero_iff, eq_minusOne_iff, or_iff_not_imp_left] using h
      simp [Operator.value?, h, Operator.apply, hnone]
    · have hsome : Word.div? a b = some (Int64.ofInt (a.toInt.tdiv b.toInt)) := by
        simpa [Word.div?, eq_zero_iff, eq_minusOne_iff] using h
      simp [Operator.value?, h, Operator.apply, hsome, toInt_tdiv h]
  | rem =>
    by_cases h : b.toInt = 0 ∨ (a.toInt = Word.least ∧ b.toInt = -1)
    · have hnone : Word.rem? a b = none := by
        simpa [Word.rem?, eq_zero_iff, eq_minusOne_iff, or_iff_not_imp_left] using h
      simp [Operator.value?, h, Operator.apply, hnone]
    · have hsome : Word.rem? a b = some (Int64.ofInt (a.toInt.tmod b.toInt)) := by
        simpa [Word.rem?, eq_zero_iff, eq_minusOne_iff] using h
      simp [Operator.value?, h, Operator.apply, hsome, toInt_tmod (not_or.mp h).1]
  | and => exact ⟨_, toInt_ofBool (by simp [Int64.lt_iff_toInt_lt]), rfl⟩
  | or => exact ⟨_, toInt_ofBool (by simp [Int64.lt_iff_toInt_lt]), rfl⟩
  | eq => exact ⟨_, toInt_ofBool (by simp [Int64.toInt_inj]), rfl⟩
  | lt => exact ⟨_, toInt_ofBool (by simp [Int64.lt_iff_toInt_lt]), rfl⟩
  | gt => exact ⟨_, toInt_ofBool (by simp [Int64.lt_iff_toInt_lt]), rfl⟩
  | le => exact ⟨_, toInt_ofBool (by simp [Int64.le_iff_toInt_le]), rfl⟩
  | ge => exact ⟨_, toInt_ofBool (by simp [Int64.le_iff_toInt_le]), rfl⟩
  | min =>
    refine ⟨_, ?_, rfl⟩
    simp only [Int64.lt_iff_toInt_lt]
    split <;> omega
  | max =>
    refine ⟨_, ?_, rfl⟩
    simp only [Int64.lt_iff_toInt_lt]
    split <;> omega

/-! Reading a tree from its text. -/

/-- A reading that has used up a text of a certain value and left the formatter as it was. -/
def Gives (reading : Reading) (value : Except Fault Int) (rest : Text) (s : State) : Prop :=
  match value with
  | .ok value => ∃ word : Int64, word.toInt = value ∧ reading = (.ok (word, rest), s)
  | .error _ => reading = (.error .divisionByZero, s)

/-- An expression that has been read up to some text: the operations of that text are carried out on its value. -/
def Continues (reading : Reading) (value : Except Fault Int) (rest : Text) (s : State) : Prop :=
  match value with
  | .ok value =>
    ∃ (word : Int64) (fuel : Nat),
      word.toInt = value ∧ 2 * rest.length < fuel ∧ reading = readOperations fuel s word rest
  | .error _ => reading = (.error .divisionByZero, s)

variable {s : State} {rest t : Text} {fuel : Nat} {value : Except Fault Int}

theorem dropBlanks (blanks : Blanks) (t : Text) :
    (blanks.text ++ t).dropWhile isSpaceOrTab = t.dropWhile isSpaceOrTab :=
  List.dropWhile_append_of_pos blanks.blank

theorem readTerm_blanks (blanks : Blanks) (t : Text) (fuel : Nat) (s : State) :
    readTerm (fuel + 1) s (blanks.text ++ t) = readTerm (fuel + 1) s t := by
  rw [readTerm, readTerm, dropBlanks]

theorem Gives.not (h : Gives (readTerm fuel s t) value rest s) :
    Gives (readTerm (fuel + 1) s ('!' :: t)) (value.map fun a => truth (a ≤ 0)) rest s := by
  have hkept : ('!' :: t).dropWhile isSpaceOrTab = '!' :: t := rfl
  rw [readTerm, hkept]
  cases value with
  | ok a =>
    obtain ⟨word, rfl, hread⟩ := h
    refine ⟨Word.ofBool (word ≤ 0), toInt_ofBool (by simp [Int64.le_iff_toInt_le]), ?_⟩
    simp only [hread]
  | error fault =>
    have hread : readTerm fuel s t = (.error .divisionByZero, s) := h
    simp only [hread]
    rfl

theorem Gives.negative (h : Gives (readTerm fuel s t) value rest s) (hv : value ≠ .ok Word.least) :
    Gives (readTerm (fuel + 1) s ('-' :: t)) (value.map fun a => -a) rest s := by
  have hkept : ('-' :: t).dropWhile isSpaceOrTab = '-' :: t := rfl
  rw [readTerm, hkept]
  cases value with
  | ok a =>
    obtain ⟨word, rfl, hread⟩ := h
    exact ⟨-word, toInt_neg fun hleast => hv (by rw [hleast]), by simp only [hread]⟩
  | error fault =>
    have hread : readTerm fuel s t = (.error .divisionByZero, s) := h
    simp only [hread]
    rfl

theorem Continues.group (h : Continues (readExpression fuel s t) value (')' :: rest) s) :
    Gives (readTerm (fuel + 1) s ('(' :: t)) value rest s := by
  have hkept : ('(' :: t).dropWhile isSpaceOrTab = '(' :: t := rfl
  rw [readTerm, hkept]
  cases value with
  | ok a =>
    obtain ⟨word, left, hword, hleft, hread⟩ := h
    obtain ⟨left, rfl⟩ := Nat.exists_eq_succ_of_ne_zero (Nat.ne_zero_of_lt hleft)
    have hclosed : (')' :: rest).dropWhile isSpaceOrTab = ')' :: rest := rfl
    rw [readOperations, hclosed, Operator.read?_close] at hread
    refine ⟨word, hword, ?_⟩
    simp only [hread, hclosed]
  | error fault =>
    have hread : readExpression fuel s t = (.error .divisionByZero, s) := h
    simp only [hread]
    rfl

/-- What a term begins with does not go on from an operator before it. -/
theorem Term.head_text (term : Term) : ∀ c ∈ (term.text ++ rest).head?, c ∉ Operator.continuing := by
  have hother : ∀ c ∈ Operator.continuing, isSpaceOrTab c = false ∧ c.isDigit = false :=
    forall_mem_of_all (by decide)
  match term with
  | .spaced blanks term =>
    rw [Term.text, List.append_assoc]
    rcases hb : blanks.text with _ | ⟨b, bs⟩
    · exact term.head_text
    · rintro c hc hcontinuing
      obtain rfl : b = c := Option.some.inj hc
      have hblank := blanks.blank b (by rw [hb]; exact List.mem_cons_self)
      rw [(hother b hcontinuing).1] at hblank
      cases hblank
  | .number numeral _ =>
    rintro c hc hcontinuing
    obtain rfl : numeral.first = c := Option.some.inj hc
    have hdigit := numeral.digit_of_mem List.mem_cons_self
    rw [(hother _ hcontinuing).2] at hdigit
    cases hdigit
  | .not operand => simp [Term.text, Operator.continuing]
  | .negative operand => simp [Term.text, Operator.continuing]
  | .positive operand => simp [Term.text, Operator.continuing]
  | .group expression => simp [Term.text, Operator.continuing]
  | .device kind => cases kind <;> simp [Term.text, Device.letter, Operator.continuing]

/-- What stands before the operand of an operation ends the expression before it. -/
theorem ends_operation (blanks : Blanks) (symbol : Symbol) (t : Text) :
    Ends (blanks.text ++ (symbol.text ++ t)) := by
  have hblanks : ∀ c, isSpaceOrTab c = true → isNumeralChar c = false ∧ isUnit c = false := by
    intro c hc
    rcases (by simpa [isSpaceOrTab] using hc : c = ' ' ∨ c = '\t') with rfl | rfl <;> decide
  rcases hb : blanks.text with _ | ⟨b, bs⟩
  · obtain ⟨c, cs, hs, hnumeral, hunit, _⟩ := Operator.head_symbol symbol
    rw [hs]
    exact ends_cons ⟨hnumeral, hunit⟩ _
  · exact ends_cons (hblanks b (blanks.blank b (by rw [hb]; exact List.mem_cons_self))) _

theorem readTerm_number {numeral : Conditional.Numeral} (hr : Ends rest) :
    readTerm (fuel + 1) s (numeral.text ++ rest) = (.ok (Formatter.numeral numeral.text, rest), s) := by
  have hread := readNumber_append numeral hr
  have hdigit := Conditional.readTerm_digit (numeral.digit_of_mem List.mem_cons_self) fuel s (numeral.rest ++ rest)
  rwa [← List.cons_append, ← Conditional.Numeral.text, hread] at hdigit

theorem readTerm_device (device : Device) :
    readTerm (fuel + 1) s (device.letter :: rest) = (.ok (Word.ofBool device.holds, rest), s) := by
  cases device <;> simp [readTerm, Device.letter, Device.holds, isSpaceOrTab, isDeviceLetter, deviceHolds]

theorem Gives.continues (h : Gives (readTerm fuel s t) value rest s) (hf : 2 * rest.length < fuel) :
    Continues (readExpression (fuel + 1) s t) value rest s := by
  rw [readExpression]
  cases value with
  | ok a =>
    obtain ⟨word, hword, hread⟩ := h
    exact ⟨word, fuel, hword, hf, by simp only [hread]⟩
  | error fault =>
    have hread : readTerm fuel s t = (.error .divisionByZero, s) := h
    simp only [hread]
    rfl

/-- An operation on an expression that has been read. -/
theorem Continues.operation {before operand : Except Fault Int} {blanks : Blanks} {symbol : Symbol} {reading : Reading}
    (h : Continues reading before (blanks.text ++ (symbol.text ++ t)) s)
    (hstart : ∀ c ∈ t.head?, c ∉ Operator.continuing)
    (hoperand : ∀ a, before = .ok a → ∀ fuel, 2 * t.length < fuel → Gives (readTerm fuel s t) operand rest s)
    (hrest : rest.length ≤ t.length) :
    Continues reading
      (before.bind fun a => operand.bind fun b =>
        match symbol.operator.value? a b with
        | some value => .ok value
        | none => .error .division) rest s := by
  cases before with
  | error fault => exact h
  | ok a =>
    obtain ⟨left, fuel, rfl, hfuel, rfl⟩ := h
    obtain ⟨fuel, rfl⟩ := Nat.exists_eq_succ_of_ne_zero (Nat.ne_zero_of_lt hfuel)
    obtain ⟨c, cs, hs, _, _, hspace⟩ := Operator.head_symbol symbol
    have hkept : (symbol.text ++ t).dropWhile isSpaceOrTab = symbol.text ++ t := by
      rw [hs, List.cons_append, List.dropWhile_cons_of_neg (by rw [hspace]; exact Bool.false_ne_true)]
    have hlength : 0 < symbol.text.length := by rw [hs]; exact Nat.succ_pos _
    rw [List.length_append, List.length_append] at hfuel
    have hread := hoperand left.toInt rfl fuel (by omega)
    rw [Nat.succ_eq_add_one, readOperations]
    simp only [dropBlanks, hkept, Operator.read?_symbol symbol hstart]
    cases operand with
    | error fault =>
      have hterm : readTerm fuel s t = (.error .divisionByZero, s) := hread
      simp only [hterm]
      rfl
    | ok b =>
      obtain ⟨right, rfl, hterm⟩ := hread
      have happly := apply_eq symbol.operator left right
      simp only [hterm, Except.bind]
      cases hvalue : symbol.operator.value? left.toInt right.toInt with
      | none =>
        rw [hvalue] at happly
        simp only [happly]
        rfl
      | some value =>
        rw [hvalue] at happly
        obtain ⟨word, hword, hok⟩ := happly
        exact ⟨word, fuel, hword, by omega, by simp only [hok]⟩

mutual

/-- A term is read to its value, whatever ends it. -/
theorem gives_term (term : Term) {rest : Text} {fuel : Nat} {s : State} (hv : term.value ≠ .error .negation)
    (hr : Ends rest) (hf : 2 * (term.text ++ rest).length < fuel) :
    Gives (readTerm fuel s (term.text ++ rest)) term.value rest s := by
  obtain ⟨fuel, rfl⟩ := Nat.exists_eq_succ_of_ne_zero (Nat.ne_zero_of_lt hf)
  cases term with
  | spaced blanks term =>
    rw [Term.text, List.append_assoc, List.length_append] at hf
    rw [Term.text, List.append_assoc, Nat.succ_eq_add_one, readTerm_blanks]
    exact gives_term term hv hr (by omega)
  | number numeral exact =>
    exact ⟨_, toInt_numeral exact, readTerm_number hr⟩
  | not operand =>
    have hoperand : operand.value ≠ .error .negation := fun h => hv (by rw [Term.value, h]; rfl)
    rw [Term.text, List.cons_append, List.length_cons] at hf
    exact (gives_term operand hoperand hr (by omega)).not
  | negative operand =>
    rw [Term.text, List.cons_append, List.length_cons] at hf
    have hoperand : operand.value ≠ .error .negation := fun h => hv (by rw [Term.value, h]; rfl)
    have hleast : operand.value ≠ .ok Word.least := fun h => hv (by rw [Term.value, h]; rfl)
    have hvalue : (Term.negative operand).value = operand.value.map fun a => -a := by
      rw [Term.value]
      cases h : operand.value with
      | error fault => rfl
      | ok a => exact if_neg fun ha => hleast (by rw [h, ha])
    rw [hvalue]
    exact (gives_term operand hoperand hr (by omega)).negative hleast
  | positive operand =>
    rw [Term.text, List.cons_append, List.length_cons] at hf
    exact gives_term operand hv hr (by omega)
  | group expression =>
    rw [Term.text, List.cons_append, List.append_assoc, List.singleton_append, List.length_cons] at hf
    have hends : Ends (')' :: rest) := ends_cons (by decide) rest
    rw [Term.text, List.cons_append, List.append_assoc, List.singleton_append]
    exact (continues_expression expression hv hends (by omega)).group
  | device kind =>
    exact ⟨_, toInt_ofBool Iff.rfl, readTerm_device kind⟩

/-- An expression is read to its value, and what follows it is read as further operations. -/
theorem continues_expression (expression : Expression) {rest : Text} {fuel : Nat} {s : State}
    (hv : expression.value ≠ .error .negation) (hr : Ends rest)
    (hf : 2 * (expression.text ++ rest).length + 1 < fuel) :
    Continues (readExpression fuel s (expression.text ++ rest)) expression.value rest s := by
  cases expression with
  | term term =>
    obtain ⟨fuel, rfl⟩ := Nat.exists_eq_succ_of_ne_zero (Nat.ne_zero_of_lt hf)
    rw [Expression.text, List.length_append] at hf
    rw [Expression.text]
    exact (gives_term term hv hr (by rw [List.length_append]; omega)).continues (by omega)
  | operation before blanks symbol operand =>
    have hbefore : before.value ≠ .error .negation := fun h => hv (by rw [Expression.value, h]; rfl)
    have hoperand : ∀ a, before.value = .ok a → operand.value ≠ .error .negation := fun a ha h =>
      hv (by rw [Expression.value, ha, h]; rfl)
    rw [Expression.text, List.append_assoc, List.append_assoc, List.append_assoc] at hf ⊢
    refine (continues_expression before hbefore (ends_operation blanks symbol _) hf).operation operand.head_text ?_ ?_
    · intro a ha fuel hfuel
      exact gives_term operand (hoperand a ha) hr hfuel
    · rw [List.length_append]
      omega

end

/-- A written expression is evaluated to the value of its tree, and a division that has none is reported. The formatter
stays as it is. -/
theorem State.evaluate_text (s : State) (expression : Expression) (h : expression.value ≠ .error .negation) :
    (s.evaluate expression.text).1.map Int64.toInt = expression.value.mapError (fun _ => .divisionByZero) ∧
      (s.evaluate expression.text).2 = s := by
  have hlength : 2 * (expression.text ++ []).length + 1 < 2 * expression.text.length + 2 := by
    rw [List.append_nil]
    omega
  have hread := continues_expression (s := s) expression h ends_nil hlength
  rw [List.append_nil] at hread
  unfold State.evaluate
  cases hv : expression.value with
  | error fault =>
    rw [hv] at hread
    dsimp only [Continues] at hread
    rw [hread]
    exact ⟨rfl, rfl⟩
  | ok value =>
    rw [hv] at hread
    obtain ⟨word, fuel, hword, hfuel, hoperations⟩ := hread
    obtain ⟨fuel, rfl⟩ := Nat.exists_eq_succ_of_ne_zero (Nat.ne_zero_of_lt hfuel)
    have hlast : readOperations (fuel + 1) s word [] = (.ok (word, []), s) := by
      rw [readOperations, List.dropWhile_nil, Operator.read?_nil]
    rw [hoperations, Nat.succ_eq_add_one, hlast]
    exact ⟨congrArg Except.ok hword, rfl⟩

/-- The expression `7 +2*3&lt;?30/( -2+5)`, which is nine if no operator binds closer than another. -/
private def folded : Expression :=
  let none : Blanks := ⟨[], by simp⟩
  let one : Blanks := ⟨[' '], List.forall_mem_singleton.mpr rfl⟩
  let operation (op : Operator) (plain : Text) (h : plain ∈ op.written) (escaped : Bool) : Symbol :=
    { operator := op, plain, written := h, escaped }
  let three : Expression :=
    .operation (.term (.spaced one (.negative (.number ⟨'2', [], rfl⟩ (by decide))))) none
      (operation .add ['+'] (by decide) false) (.number ⟨'5', [], rfl⟩ (by decide))
  let nine : Expression :=
    .operation (.term (.number ⟨'7', [], rfl⟩ (by decide))) one (operation .add ['+'] (by decide) false)
      (.number ⟨'2', [], rfl⟩ (by decide))
  let product : Expression :=
    .operation nine none (operation .mul ['*'] (by decide) false) (.number ⟨'3', [], rfl⟩ (by decide))
  let least : Expression :=
    .operation product none (operation .min ['<', '?'] (by decide) true) (.number ⟨'3', ['0'], rfl⟩ (by decide))
  .operation least none (operation .div ['/'] (by decide) false) (.group three)

theorem State.evaluate_text_folded :
    folded.text = "7 +2*3&lt;?30/( -2+5)".toList ∧ folded.value = .ok 9 ∧
      ((State.initial 0).evaluate folded.text).1.map Int64.toInt = .ok 9 ∧
      ((State.initial 0).evaluate folded.text).2 = State.initial 0 := by
  have hvalue : folded.value = .ok 9 := rfl
  obtain ⟨hnine, hkept⟩ := (State.initial 0).evaluate_text folded (by rw [hvalue]; exact nofun)
  rw [hvalue] at hnine
  exact ⟨by decide, hvalue, hnine, hkept⟩

end RoffDocBook.Formatter
