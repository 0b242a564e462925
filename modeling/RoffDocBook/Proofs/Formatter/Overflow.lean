import RoffDocBook.Proofs.Expression.Evaluation
import RoffDocBook.Proofs.Formatter.EscapedSource

/-! Arithmetic on registers that leaves the range of a word. The sums and products of expressions stay at the ends of
the range, while a negation and a step of a register wrap around; up to the first of these all values are those of
arithmetic that stays in the range. -/
namespace RoffDocBook

namespace Formatter
open Text

/-- The range of a word. -/
def InRange (n : Int) : Prop :=
  Word.least ≤ n ∧ n ≤ Word.greatest

instance : DecidablePred InRange :=
  fun n => inferInstanceAs (Decidable (Word.least ≤ n ∧ n ≤ Word.greatest))

/-- The sign in front of a step of a register. -/
inductive Sign where
  | plus
  | minus
  deriving DecidableEq

def Sign.word : Sign → Int64
  | plus => 1
  | minus => -1

/-- An operation without a guard whose result is not in the range of a word, or a division that is refused for it. -/
inductive Overflow where
  | negation (a : Int64) (h : ¬ InRange (-a.toInt))
  | advance (value : Int64) (sign : Sign) (step : Int64)
      (h : ¬ (InRange (sign.word.toInt * step.toInt) ∧ InRange (value.toInt + sign.word.toInt * step.toInt)))
  | quotient (a b : Int64) (h : ¬ InRange (a.toInt.tdiv b.toInt))
  | remainder (a b : Int64) (h : ¬ InRange (a.toInt.tdiv b.toInt))

/-- One more than the greatest word. -/
def Overflow.count : Overflow :=
  .advance Int64.maxValue .plus 1 (by decide)

/-- The operations on words, each with a value unless it overflows. -/
structure Arithmetic where
  negate : Int64 → Except Overflow Int64
  /-- A value with a step added or subtracted. -/
  advance : Int64 → Sign → Int64 → Except Overflow Int64
  apply : Operator → Int64 → Int64 → Except Overflow (Except ExpressionError Int64)
  measure : Nat → Except Overflow Int64

namespace Arithmetic

/-- Arithmetic as it is carried out. -/
def wrapping : Arithmetic where
  negate a := .ok (-a)
  advance value sign step := .ok (value + sign.word * step)
  apply op a b := .ok (op.apply a b)
  measure n := .ok (Int64.ofNat n)

/-- The quotient toward zero, at the ends of the range if it is not in it. -/
def quotient (a b : Int64) : Except ExpressionError Int64 :=
  if b = 0 then .error .divisionByZero else .ok (Word.clamp (a.toInt.tdiv b.toInt))

def remainder (a b : Int64) : Except ExpressionError Int64 :=
  if b = 0 then .error .divisionByZero else .ok (Word.clamp (a.toInt.tmod b.toInt))

/-- Arithmetic that stays at the ends of the range of a word. -/
def saturating : Arithmetic where
  negate a := .ok (Word.sub 0 a)
  advance value sign step := .ok (Word.add value (Word.mul sign.word step))
  apply op a b :=
    match op with
    | .div => .ok (quotient a b)
    | .rem => .ok (remainder a b)
    | op => .ok (op.apply a b)
  measure n := .ok (Word.clamp n)

/-- Arithmetic that tells where it leaves the range of a word. -/
def checked : Arithmetic where
  negate a := if h : InRange (-a.toInt) then .ok (-a) else .error (.negation a h)
  advance value sign step :=
    if h : InRange (sign.word.toInt * step.toInt) ∧ InRange (value.toInt + sign.word.toInt * step.toInt) then
      .ok (value + sign.word * step)
    else .error (.advance value sign step h)
  apply op a b :=
    match op with
    | .div => if h : InRange (a.toInt.tdiv b.toInt) then .ok (Operator.div.apply a b) else .error (.quotient a b h)
    | .rem => if h : InRange (a.toInt.tdiv b.toInt) then .ok (Operator.rem.apply a b) else .error (.remainder a b h)
    | op => .ok (op.apply a b)
  measure n := if InRange n then .ok (Int64.ofNat n) else .error .count

end Arithmetic

/-- What an operation that overflows gives. -/
def Overflow.given : Overflow → Except ExpressionError Int64
  | negation a _ => .ok (-a)
  | advance value sign step _ => .ok (value + sign.word * step)
  | quotient a b _ => Operator.div.apply a b
  | remainder a b _ => Operator.rem.apply a b

/-- What it would give if it stayed at the ends of the range. -/
def Overflow.saturated : Overflow → Except ExpressionError Int64
  | negation a _ => .ok (Word.sub 0 a)
  | advance value sign step _ => .ok (Word.add value (Word.mul sign.word step))
  | quotient a b _ => Arithmetic.quotient a b
  | remainder a b _ => Arithmetic.remainder a b

/-! Arithmetic that answers less often and otherwise the same. -/

/-- The same outcome, unless the first one overflows. -/
def Refines {α : Type} (x y : Except Overflow α) : Prop :=
  (∃ overflow, x = .error overflow) ∨ x = y

namespace Refines
variable {α β : Type} {x y : Except Overflow α}

theorem refl (x : Except Overflow α) : Refines x x :=
  Or.inr rfl

theorem bind {f g : α → Except Overflow β} (h : Refines x y) (k : ∀ a, Refines (f a) (g a)) :
    Refines (x.bind f) (y.bind g) := by
  rcases h with ⟨overflow, rfl⟩ | rfl
  · exact Or.inl ⟨overflow, rfl⟩
  · cases x with
    | error overflow => exact Or.inl ⟨overflow, rfl⟩
    | ok a => exact k a

theorem map (h : Refines x y) (f : α → β) : Refines (x.map f) (y.map f) := by
  rcases h with ⟨overflow, rfl⟩ | rfl
  · exact Or.inl ⟨overflow, rfl⟩
  · exact refl _

theorem guarded {p : Prop} [Decidable p] {overflow : ¬ p → Overflow} (h : p → Refines x y) :
    Refines (if h : p then x else .error (overflow h)) y := by
  split
  · rename_i hp
    exact h hp
  · exact Or.inl ⟨_, rfl⟩

end Refines

structure Arithmetic.Refines (m k : Arithmetic) : Prop where
  negate : ∀ a, Formatter.Refines (m.negate a) (k.negate a)
  advance : ∀ value sign step, Formatter.Refines (m.advance value sign step) (k.advance value sign step)
  apply : ∀ op a b, Formatter.Refines (m.apply op a b) (k.apply op a b)
  measure : ∀ n, Formatter.Refines (m.measure n) (k.measure n)

theorem inRange_toInt (a : Int64) : InRange a.toInt :=
  ⟨a.le_toInt, Int.lt_add_one_iff.mp a.toInt_lt⟩

theorem clamp_inRange {n : Int} (h : InRange n) : Word.clamp n = Int64.ofInt n := by
  rw [Word.clamp, Int.min_eq_right h.2, Int.max_eq_right h.1]

theorem inRange_tdiv_iff {a b : Int64} (hb : b ≠ 0) :
    InRange (a.toInt.tdiv b.toInt) ↔ ¬ (a.toInt = Word.least ∧ b = -1) := by
  rw [Ne, eq_zero_iff] at hb
  rw [eq_minusOne_iff]
  constructor
  · rintro h ⟨ha, hb⟩
    rw [ha, hb] at h
    exact absurd h (by decide)
  · intro h
    have hq := toInt_tdiv (a := a) (b := b) (by simpa [hb] using h)
    rw [← hq]
    exact inRange_toInt _

/-- The divisions that are carried out are those with a quotient in range and a divisor other than zero. -/
theorem apply_division (a b : Int64) :
    (Operator.div.apply a b =
      if b ≠ 0 ∧ InRange (a.toInt.tdiv b.toInt) then .ok (Int64.ofInt (a.toInt.tdiv b.toInt))
      else .error .divisionByZero) ∧
    Operator.rem.apply a b =
      if b ≠ 0 ∧ InRange (a.toInt.tdiv b.toInt) then .ok (Int64.ofInt (a.toInt.tmod b.toInt))
      else .error .divisionByZero := by
  by_cases hb : b = 0
  · simp [Operator.apply, Word.div?, Word.rem?, hb]
  · by_cases h : a.toInt = Word.least ∧ b = -1
    · have hout : ¬ (b ≠ 0 ∧ InRange (a.toInt.tdiv b.toInt)) := fun hin => (inRange_tdiv_iff hb).mp hin.2 h
      have hrefused : (decide (b = 0) || (a.toInt == Word.least && decide (b = -1))) = true := by simp [h]
      simp only [Operator.apply, Word.div?, Word.rem?, if_pos hrefused, if_neg hout, and_self]
    · have hin : b ≠ 0 ∧ InRange (a.toInt.tdiv b.toInt) := ⟨hb, (inRange_tdiv_iff hb).mpr h⟩
      have hcarried : ¬ (decide (b = 0) || (a.toInt == Word.least && decide (b = -1))) = true := by simpa [hb] using h
      simp only [Operator.apply, Word.div?, Word.rem?, if_neg hcarried, if_pos hin, and_self]

namespace Arithmetic

theorem checked_wrapping : checked.Refines wrapping := by
  refine ⟨fun a => ?_, fun value sign step => ?_, fun op a b => ?_, fun n => ?_⟩
  · exact .guarded fun _ => .refl _
  · exact .guarded fun _ => .refl _
  · cases op with
    | div => exact .guarded fun _ => .refl _
    | rem => exact .guarded fun _ => .refl _
    | _ => exact .refl _
  · exact .guarded fun _ => .refl _

theorem checked_saturating : checked.Refines saturating := by
  refine ⟨fun a => ?_, fun value sign step => ?_, fun op a b => ?_, fun n => ?_⟩
  · apply Refines.guarded
    intro h
    have hword : Word.sub 0 a = -a := by
      rw [Word.sub, Int64.toInt_zero, Int.zero_sub, clamp_inRange h, Int64.ofInt_neg, Int64.ofInt_toInt]
    exact Or.inr (congrArg Except.ok hword.symm)
  · apply Refines.guarded
    intro h
    have hmul : Word.mul sign.word step = sign.word * step := by
      rw [Word.mul, clamp_inRange h.1, Int64.ofInt_mul, Int64.ofInt_toInt, Int64.ofInt_toInt]
    have hproduct : (sign.word * step).toInt = sign.word.toInt * step.toInt := by
      rw [← Int64.ofInt_toInt sign.word, ← Int64.ofInt_toInt step, ← Int64.ofInt_mul, Int64.ofInt_toInt,
        Int64.ofInt_toInt]
      exact Int64.toInt_ofInt_of_le h.1.1 (Int.lt_add_one_iff.mpr h.1.2)
    have hadd : Word.add value (sign.word * step) = value + sign.word * step := by
      rw [Word.add, hproduct, clamp_inRange h.2, Int64.ofInt_add, Int64.ofInt_mul, Int64.ofInt_toInt,
        Int64.ofInt_toInt, Int64.ofInt_toInt]
    have hword : Word.add value (Word.mul sign.word step) = value + sign.word * step := by rw [hmul, hadd]
    exact Or.inr (congrArg Except.ok hword.symm)
  · cases op with
    | div =>
      apply Refines.guarded
      intro h
      have hword : quotient a b = Operator.div.apply a b := by
        rw [quotient, (apply_division a b).1, clamp_inRange h]
        by_cases hb : b = 0 <;> simp [hb, h]
      exact Or.inr (congrArg Except.ok hword.symm)
    | rem =>
      apply Refines.guarded
      intro h
      have hword : remainder a b = Operator.rem.apply a b := by
        rw [remainder, (apply_division a b).2]
        by_cases hb : b = 0
        · simp [hb]
        · have hin : InRange (a.toInt.tmod b.toInt) := by
            rw [← toInt_tmod (mt (eq_zero_iff b).mpr hb)]
            exact inRange_toInt _
          simp [hb, h, clamp_inRange hin]
      exact Or.inr (congrArg Except.ok hword.symm)
    | _ => exact .refl _
  · apply Refines.guarded
    intro h
    have hword : Word.clamp n = Int64.ofNat n := by rw [clamp_inRange h, Int64.ofInt_eq_ofNat]
    exact Or.inr (congrArg Except.ok hword.symm)

end Arithmetic

/-- An operation that overflows does not stay at the end of the range. -/
theorem Overflow.given_ne_saturated (overflow : Overflow) : overflow.given ≠ overflow.saturated := by
  cases overflow with
  | negation a h =>
    intro he
    have hword : -a = Word.sub 0 a := Except.ok.inj he
    have hint := congrArg Int64.toInt hword
    have hlow := a.le_toInt
    have hhigh := a.toInt_lt
    rw [Int64.toInt_neg, Word.sub, Word.toInt_clamp, Int64.toInt_zero] at hint
    simp only [InRange, Word.least, Word.greatest, Int.bmod] at h hint
    omega
  | advance value sign step h =>
    intro he
    have hword : value + sign.word * step = Word.add value (Word.mul sign.word step) := Except.ok.inj he
    have hint := congrArg Int64.toInt hword
    have hlow := value.le_toInt
    have hhigh := value.toInt_lt
    have hlow' := step.le_toInt
    have hhigh' := step.toInt_lt
    rw [Int64.toInt_add, Int64.toInt_mul, Word.add, Word.mul, Word.toInt_clamp, Word.toInt_clamp] at hint
    have hsign : sign.word.toInt = 1 ∨ sign.word.toInt = -1 := by cases sign <;> decide
    rcases hsign with hone | hone <;>
      simp only [hone, Int.one_mul, Int.neg_mul, InRange, Word.least, Word.greatest, Int.bmod] at h hint <;> omega
  | quotient a b h =>
    have hb : b ≠ 0 := by
      rintro rfl
      exact h (by simpa using inRange_toInt 0)
    rw [given, saturated, Arithmetic.quotient, if_neg hb, (apply_division a b).1, if_neg fun hin => h hin.2]
    intro he
    cases he
  | remainder a b h =>
    have hb : b ≠ 0 := by
      rintro rfl
      exact h (by simpa using inRange_toInt 0)
    rw [given, saturated, Arithmetic.remainder, if_neg hb, (apply_division a b).2, if_neg fun hin => h hin.2]
    intro he
    cases he

/-! The same reading with any arithmetic. -/

section Reading
variable (m : Arithmetic)

/-- The sign at the start of a text. -/
def sign? : Text → Option Sign
  | '+' :: _ => some .plus
  | '-' :: _ => some .minus
  | _ => none

def State.stepRegisterWith (s : State) (name : String) (sign : Sign) : Except Overflow (Int64 × State) :=
  match s.registers.get? name with
  | some (.value value step) =>
    (m.advance value sign step).map fun value => (value, s.setRegister name value step)
  | _ => .ok (s.register name, s)

/-- The value that a reference to a register stands for. -/
def State.referWith (s : State) (t : Text) : Except Overflow (Int64 × State) :=
  match sign? t with
  | some sign => s.stepRegisterWith m (readName (unsigned t)).1 sign
  | none => .ok (s.register (readName (unsigned t)).1, s)

def State.interpolateWith (s : State) : Text → Except Overflow (Text × State)
  | [] => .ok ([], s)
  | '\\' :: 'n' :: rest =>
    (s.referWith m rest).bind fun found =>
      (State.interpolateWith found.2 (readName (unsigned rest)).2).map fun result =>
        (ofInt found.1.toInt ++ result.1, result.2)
  | '\\' :: c :: rest =>
    (State.interpolateWith s rest).map fun result => ('\\' :: c :: result.1, result.2)
  | c :: rest => (State.interpolateWith s rest).map fun result => (c :: result.1, result.2)
termination_by t => t.length
decreasing_by
  all_goals simp only [List.length_cons]
  · have := length_readName_le (unsigned rest)
    have := (Escapes.suffix_unsigned rest).length_le
    omega
  · omega
  · omega

/-- Goes on after a reading that has a value. -/
def Reading.next (reading : Reading) (go : Int64 → Text → State → Except Overflow Reading) :
    Except Overflow Reading :=
  match reading with
  | (.ok (value, rest), s) => go value rest s
  | (.error e, s) => .ok (.error e, s)

mutual

def readExpressionWith : Nat → State → Text → Except Overflow Reading
  | 0, s, t => .ok (.error (.badTerm t), s)
  | fuel + 1, s, t =>
    (readTermWith fuel s t).bind fun reading =>
      reading.next fun value rest s => readOperationsWith fuel s value rest

def readOperationsWith : Nat → State → Int64 → Text → Except Overflow Reading
  | 0, s, _, t => .ok (.error (.badTerm t), s)
  | fuel + 1, s, value, t =>
    let t := t.dropWhile isSpaceOrTab
    match Operator.read? t with
    | none => .ok (.ok (value, t), s)
    | some (op, rest) =>
      (readTermWith fuel s rest).bind fun reading =>
        reading.next fun operand rest s =>
          (m.apply op value operand).bind fun result =>
            match result with
            | .error e => .ok (.error e, s)
            | .ok value => readOperationsWith fuel s value rest

def readTermWith : Nat → State → Text → Except Overflow Reading
  | 0, s, t => .ok (.error (.badTerm t), s)
  | fuel + 1, s, t =>
    match t.dropWhile isSpaceOrTab with
    | [] => .ok (.error (.badTerm []), s)
    | '!' :: rest => (readTermWith fuel s rest).map fun reading => reading.map fun value => Word.ofBool (value ≤ 0)
    | '-' :: rest =>
      (readTermWith fuel s rest).bind fun reading =>
        reading.next fun value rest s => (m.negate value).map fun value => (.ok (value, rest), s)
    | '+' :: rest => readTermWith fuel s rest
    | '(' :: rest => (readExpressionWith fuel s rest).map Reading.close
    | '\\' :: 'n' :: rest =>
      (s.referWith m rest).map fun found => (.ok (found.1, (readName (unsigned rest)).2), found.2)
    | '\\' :: 'w' :: delimiter :: rest =>
      let found := spanUntil (· == delimiter) rest
      (m.measure (width found.1)).map fun value => (.ok (value, found.2.drop 1), s)
    | c :: rest =>
      .ok
        (if c.isDigit || c == '.' then (.ok (readNumber (c :: rest)), s)
        else if isDeviceLetter c then (.ok (Word.ofBool (deviceHolds c), rest), s)
        else (.error (.badTerm (c :: rest)), s))

end

def State.evaluateWith (s : State) (t : Text) : Except Overflow (Except ExpressionError Int64 × State) :=
  (readExpressionWith m (2 * t.length + 2) s t).map fun reading =>
    match reading with
    | (.ok (value, []), s) => (.ok value, s)
    | (.ok (_, rest), s) => (.error (.badTerm rest), s)
    | (.error e, s) => (.error e, s)

end Reading

theorem Refines.next (reading : Reading) {f g : Int64 → Text → State → Except Overflow Reading}
    (h : ∀ value rest s, Refines (f value rest s) (g value rest s)) : Refines (reading.next f) (reading.next g) := by
  match reading with
  | (.ok (value, rest), s) => exact h value rest s
  | (.error e, s) => exact .refl _

section
variable {m k : Arithmetic} (h : m.Refines k)
include h

theorem refines_referWith (s : State) (t : Text) : Refines (s.referWith m t) (s.referWith k t) := by
  unfold State.referWith
  split
  · unfold State.stepRegisterWith
    split
    · exact (h.advance _ _ _).map _
    · exact .refl _
  · exact .refl _

theorem refines_interpolateWith (s : State) (t : Text) : Refines (s.interpolateWith m t) (s.interpolateWith k t) := by
  fun_induction State.interpolateWith m s t with
  | case1 s =>
    rw [State.interpolateWith]
    exact .refl _
  | case2 s rest ih =>
    rw [State.interpolateWith]
    exact (refines_referWith h s _).bind fun found => (ih found).map _
  | case3 s c rest hc ih =>
    rw [State.interpolateWith]
    · exact ih.map _
    · exact hc
  | case4 s c rest hn hc ih =>
    rw [State.interpolateWith]
    · exact ih.map _
    · exact hn
    · exact hc

theorem refines_reading (fuel : Nat) :
    (∀ s t, Refines (readExpressionWith m fuel s t) (readExpressionWith k fuel s t)) ∧
      (∀ s value t, Refines (readOperationsWith m fuel s value t) (readOperationsWith k fuel s value t)) ∧
        ∀ s t, Refines (readTermWith m fuel s t) (readTermWith k fuel s t) := by
  induction fuel with
  | zero => exact ⟨fun _ _ => .refl _, fun _ _ _ => .refl _, fun _ _ => .refl _⟩
  | succ fuel ih =>
    obtain ⟨hexpression, hoperations, hterm⟩ := ih
    refine ⟨fun s t => ?_, fun s value t => ?_, fun s t => ?_⟩
    · rw [readExpressionWith, readExpressionWith]
      apply (hterm s t).bind
      intro reading
      exact .next reading fun value rest next => hoperations next value rest
    · rw [readOperationsWith, readOperationsWith]
      split
      · exact .refl _
      · rename_i op rest _
        apply (hterm s rest).bind
        intro reading
        apply Refines.next reading
        intro operand rest next
        apply (h.apply op value operand).bind
        intro result
        cases result with
        | error e => exact .refl _
        | ok value => exact hoperations next value rest
    · rw [readTermWith, readTermWith]
      split
      · exact .refl _
      · exact (hterm s _).map _
      · exact (hterm s _).bind fun reading => .next reading fun value _ _ => (h.negate value).map _
      · exact hterm s _
      · exact (hexpression s _).map _
      · exact (refines_referWith h s _).map _
      · exact (h.measure _).map _
      · exact .refl _

theorem refines_evaluateWith (s : State) (t : Text) : Refines (s.evaluateWith m t) (s.evaluateWith k t) :=
  ((refines_reading h _).1 s t).map _

end

/-! With the arithmetic that is carried out the reading is that of the formatter. -/

theorem stepRegisterWith_wrapping (s : State) (name : String) (sign : Sign) :
    s.stepRegisterWith .wrapping name sign = .ok (s.stepRegister name sign.word) := by
  unfold State.stepRegisterWith State.stepRegister
  generalize s.registers.get? name = entry
  cases entry with
  | none => rfl
  | some register => cases register <;> rfl

theorem referWith_wrapping (s : State) (t : Text) :
    s.referWith .wrapping t = .ok ((s.readRegister t).1, (s.readRegister t).2.2) := by
  unfold State.referWith sign?
  split
  · rename_i hsign
    split at hsign
    · cases hsign
      exact stepRegisterWith_wrapping s _ .plus
    · cases hsign
      exact stepRegisterWith_wrapping s _ .minus
    · cases hsign
  · rename_i hsign
    split at hsign
    · cases hsign
    · cases hsign
    · rename_i hplus hminus
      rw [State.readRegister, unsigned_of_ne hplus hminus]
      · exact hplus
      · exact hminus

theorem interpolateWith_wrapping (s : State) (t : Text) : s.interpolateWith .wrapping t = .ok (s.interpolate t) := by
  fun_induction State.interpolate s t with
  | case1 s => rw [State.interpolateWith]
  | case2 s rest found result ih =>
    rw [State.interpolateWith, referWith_wrapping, ← Escapes.readRegister_rest s]
    change (State.interpolateWith .wrapping found.2.2 found.2.1).map _ = _
    rw [ih]
    rfl
  | case3 s c rest hc result ih =>
    rw [State.interpolateWith, ih]
    · rfl
    · exact hc
  | case4 s c rest hn hc result ih =>
    rw [State.interpolateWith, ih]
    · rfl
    · exact hn
    · exact hc

theorem readTermWith_wrapping {fuel : Nat}
    (hexpression : ∀ s t, readExpressionWith .wrapping fuel s t = .ok (readExpression fuel s t))
    (hterm : ∀ s t, readTermWith .wrapping fuel s t = .ok (readTerm fuel s t)) (s : State) (t : Text) :
    readTermWith .wrapping (fuel + 1) s t = .ok (readTerm (fuel + 1) s t) := by
  have hfirst : ∀ c ∈ (t.dropWhile isSpaceOrTab).head?, isSpaceOrTab c = false := by
    intro c hc
    have hdropped := List.head?_dropWhile_not isSpaceOrTab t
    rw [hc] at hdropped
    exact Bool.eq_false_iff.mpr (by simpa using hdropped)
  rw [readTermWith, ← readTerm_dropWhile]
  generalize t.dropWhile isSpaceOrTab = t at hfirst ⊢
  split
  · rfl
  · rename_i rest
    rw [hterm, readTerm_not]
    rfl
  · rename_i rest
    rw [hterm, readTerm_negative]
    obtain ⟨result, next⟩ := readTerm fuel s rest
    cases result <;> rfl
  · exact hterm s _
  · rw [hexpression, readTerm_group]
    rfl
  · rw [referWith_wrapping, readTerm_register, ← Escapes.readRegister_rest s]
    rfl
  · rfl
  · rename_i c rest hnot hnegative hpositive hgroup hregister hwidth
    have hblank := hfirst c rfl
    rw [readTerm_other]
    · simp_all [isSpaceOrTab]
    · rintro rfl
      exact ⟨fun after => hregister after rfl, fun d after => hwidth d after rfl⟩

theorem reading_wrapping (fuel : Nat) :
    (∀ s t, readExpressionWith .wrapping fuel s t = .ok (readExpression fuel s t)) ∧
      (∀ s value t, readOperationsWith .wrapping fuel s value t = .ok (readOperations fuel s value t)) ∧
        ∀ s t, readTermWith .wrapping fuel s t = .ok (readTerm fuel s t) := by
  induction fuel with
  | zero => exact ⟨fun _ _ => rfl, fun _ _ _ => rfl, fun _ _ => rfl⟩
  | succ fuel ih =>
    obtain ⟨hexpression, hoperations, hterm⟩ := ih
    refine ⟨fun s t => ?_, fun s value t => ?_, fun s t => ?_⟩
    · rw [readExpressionWith, readExpression, hterm]
      obtain ⟨result, next⟩ := readTerm fuel s t
      cases result with
      | ok read => exact hoperations next read.1 read.2
      | error e => rfl
    · rw [readOperationsWith, readOperations]
      cases hread : Operator.read? (t.dropWhile isSpaceOrTab) with
      | none => rfl
      | some found =>
        obtain ⟨op, rest⟩ := found
        dsimp only
        rw [hterm]
        obtain ⟨result, next⟩ := readTerm fuel s rest
        cases result with
        | error e => rfl
        | ok read =>
          simp only [Except.bind, Reading.next, Arithmetic.wrapping]
          cases op.apply value read.1 with
          | error e => rfl
          | ok value => exact hoperations next value read.2
    · exact readTermWith_wrapping hexpression hterm s t

theorem evaluateWith_wrapping (s : State) (t : Text) : s.evaluateWith .wrapping t = .ok (s.evaluate t) := by
  rw [State.evaluateWith, (reading_wrapping _).1]
  rfl

end Formatter

namespace Document
open Formatter Text
variable (m : Arithmetic)

/-- A register set with any arithmetic. -/
def setNumberWith (doc : Document) (request : Request) : Except Overflow Document :=
  if (request.argument 0).isEmpty then .ok doc
  else
    let name := String.ofList (request.argument 0)
    (doc.formatter.evaluateWith m (unsigned (request.argument 1))).bind fun evaluated =>
      let doc := { doc with formatter := evaluated.2 }
      let found : Int64 × Document :=
        match evaluated.1 with
        | .ok value => (value, doc)
        | .error e => (0, doc.warn (.badRegisterValue e name))
      let value : Except Overflow Int64 :=
        match sign? (request.argument 1) with
        | some sign => m.advance (doc.formatter.register name) sign found.1
        | none => .ok found.1
      value.map fun value =>
        let step := (toWord? (request.argument 2)).getD (doc.formatter.stepOf name)
        { found.2 with formatter := found.2.formatter.setRegister name value step }

/-- What computes with registers. -/
inductive NumberCommand where
  | evaluate (expression : Text)
  /-- A line in which references to registers are replaced. -/
  | interpolate (line : Text)
  | setNumber (request : Request)

/-- What a command answers. -/
inductive Answer where
  | value (result : Except ExpressionError Int64)
  | line (text : Text)
  | none

def NumberCommand.perform (doc : Document) : NumberCommand → Answer × Document
  | evaluate expression =>
    let result := doc.formatter.evaluate expression
    (.value result.1, { doc with formatter := result.2 })
  | interpolate line =>
    let result := doc.interpolate line
    (.line result.1, result.2)
  | setNumber request => (.none, doc.setNumber request)

def NumberCommand.performWith (doc : Document) : NumberCommand → Except Overflow (Answer × Document)
  | evaluate expression =>
    (doc.formatter.evaluateWith m expression).map fun result =>
      (.value result.1, { doc with formatter := result.2 })
  | interpolate line =>
    (doc.formatter.interpolateWith m line).map fun result => (.line result.1, { doc with formatter := result.2 })
  | setNumber request => (doc.setNumberWith m request).map fun doc => (.none, doc)

/-- Commands one after the other, with their answers. -/
def performCommands (doc : Document) : List NumberCommand → List Answer × Document
  | [] => ([], doc)
  | command :: commands =>
    let result := command.perform doc
    let rest := performCommands result.2 commands
    (result.1 :: rest.1, rest.2)

def performCommandsWith (doc : Document) : List NumberCommand → Except Overflow (List Answer × Document)
  | [] => .ok ([], doc)
  | command :: commands =>
    (command.performWith m doc).bind fun result =>
      (performCommandsWith result.2 commands).map fun rest => (result.1 :: rest.1, rest.2)

theorem setNumberWith_wrapping (doc : Document) (request : Request) :
    doc.setNumberWith .wrapping request = .ok (doc.setNumber request) := by
  have hsigned : (match request.argument 1 with
      | '+' :: rest => ((1, rest) : Int64 × Text)
      | '-' :: rest => (-1, rest)
      | text => (0, text)) =
      (((sign? (request.argument 1)).map Sign.word).getD 0, unsigned (request.argument 1)) := by
    unfold sign? unsigned
    split <;> simp_all [Sign.word]
  have hword : ∀ sign : Sign, (sign.word == 0) = false := by
    intro sign
    cases sign <;> decide
  unfold setNumber
  extract_lets argument name
  split
  · rename_i hempty
    rw [setNumberWith, if_pos hempty]
  · rename_i hempty
    split
    rename_i sign expression hread
    obtain ⟨rfl, rfl⟩ := Prod.mk.inj (hsigned.symm.trans hread)
    rw [setNumberWith, if_neg hempty, evaluateWith_wrapping]
    generalize doc.formatter.evaluate (unsigned (request.argument 1)) = evaluated
    obtain ⟨error | value, formatter⟩ := evaluated <;>
      cases sign? (request.argument 1) with
      | none => cases toWord? (request.argument 2) <;> rfl
      | some sign =>
        simp only [Option.map_some, Option.getD_some, hword]
        cases toWord? (request.argument 2) <;> rfl

theorem performWith_wrapping (doc : Document) (command : NumberCommand) :
    command.performWith .wrapping doc = .ok (command.perform doc) := by
  cases command with
  | evaluate expression =>
    rw [NumberCommand.performWith, evaluateWith_wrapping]
    rfl
  | interpolate line =>
    rw [NumberCommand.performWith, interpolateWith_wrapping]
    rfl
  | setNumber request =>
    rw [NumberCommand.performWith, setNumberWith_wrapping]
    rfl

theorem performCommandsWith_wrapping (doc : Document) (commands : List NumberCommand) :
    doc.performCommandsWith .wrapping commands = .ok (doc.performCommands commands) := by
  induction commands generalizing doc with
  | nil => rfl
  | cons command commands ih =>
    rw [performCommandsWith, performWith_wrapping]
    change (performCommandsWith .wrapping (command.perform doc).2 commands).map _ = _
    rw [ih]
    rfl

variable {m} {k : Arithmetic} (h : m.Refines k)
include h

theorem refines_setNumberWith (doc : Document) (request : Request) :
    Refines (doc.setNumberWith m request) (doc.setNumberWith k request) := by
  unfold setNumberWith
  split
  · exact .refl _
  · apply (refines_evaluateWith h _ _).bind
    intro evaluated
    apply Refines.map
    split
    · exact h.advance _ _ _
    · exact .refl _

theorem refines_performWith (doc : Document) (command : NumberCommand) :
    Refines (command.performWith m doc) (command.performWith k doc) := by
  cases command with
  | evaluate expression => exact (refines_evaluateWith h _ _).map _
  | interpolate line => exact (refines_interpolateWith h _ _).map _
  | setNumber request => exact (refines_setNumberWith h _ _).map _

theorem refines_performCommandsWith (doc : Document) (commands : List NumberCommand) :
    Refines (doc.performCommandsWith m commands) (doc.performCommandsWith k commands) := by
  induction commands generalizing doc with
  | nil => exact .refl _
  | cons command commands ih =>
    apply (refines_performWith h doc command).bind
    intro result
    exact (ih result.2).map _

omit h

/-- Where the arithmetic overflows, one command does after others that do not. -/
theorem performCommandsWith_error {doc : Document} {commands : List NumberCommand} {overflow : Overflow}
    (h : doc.performCommandsWith m commands = .error overflow) :
    ∃ before command after result, commands = before ++ command :: after ∧
      doc.performCommandsWith m before = .ok result ∧ command.performWith m result.2 = .error overflow := by
  induction commands generalizing doc with
  | nil => cases h
  | cons command commands ih =>
    rw [performCommandsWith] at h
    cases hfirst : command.performWith m doc with
    | error first =>
      rw [hfirst] at h
      cases h
      exact ⟨[], command, commands, ([], doc), rfl, rfl, hfirst⟩
    | ok result =>
      rw [hfirst] at h
      change (performCommandsWith m result.2 commands).map _ = _ at h
      cases hrest : result.2.performCommandsWith m commands with
      | ok rest =>
        rw [hrest] at h
        cases h
      | error later =>
        rw [hrest] at h
        cases h
        obtain ⟨before, last, after, found, rfl, hbefore, hlast⟩ := ih hrest
        refine ⟨command :: before, last, after, (result.1 :: found.1, found.2), rfl, ?_, hlast⟩
        rw [performCommandsWith, hfirst]
        change (performCommandsWith m result.2 before).map _ = _
        rw [hbefore]
        rfl

theorem performCommands_of_checked {doc : Document} {commands : List NumberCommand} {result : List Answer × Document}
    (h : doc.performCommandsWith .checked commands = .ok result) :
    doc.performCommands commands = result ∧ doc.performCommandsWith .saturating commands = .ok result := by
  have hwrapping := refines_performCommandsWith Arithmetic.checked_wrapping doc commands
  have hsaturating := refines_performCommandsWith Arithmetic.checked_saturating doc commands
  rw [h] at hwrapping hsaturating
  rw [performCommandsWith_wrapping] at hwrapping
  have hnone : ¬ ∃ overflow, (Except.ok result : Except Overflow _) = .error overflow := by
    rintro ⟨_, he⟩
    cases he
  have hsame : Except.ok result = Except.ok (doc.performCommands commands) := hwrapping.resolve_left hnone
  have hsaturated : Except.ok result = doc.performCommandsWith .saturating commands := hsaturating.resolve_left hnone
  exact ⟨(Except.ok.inj hsame).symm, hsaturated.symm⟩

/-- Commands do what they would do if registers stayed at the ends of the range of a word, up to the first command with
an operation that overflows; and that operation does not give the end of the range. -/
theorem performCommands_saturates (doc : Document) (commands : List NumberCommand) :
    (∀ result, doc.performCommandsWith .checked commands = .ok result →
      doc.performCommands commands = result ∧ doc.performCommandsWith .saturating commands = .ok result) ∧
    ∀ overflow, doc.performCommandsWith .checked commands = .error overflow →
      overflow.given ≠ overflow.saturated ∧
        ∃ before command after, commands = before ++ command :: after ∧
          doc.performCommandsWith .saturating before = .ok (doc.performCommands before) ∧
          command.performWith .checked (doc.performCommands before).2 = .error overflow := by
  refine ⟨fun result hchecked => performCommands_of_checked hchecked, fun overflow hchecked => ?_⟩
  obtain ⟨before, command, after, result, hsplit, hbefore, hcommand⟩ := performCommandsWith_error hchecked
  obtain ⟨rfl, hsaturating⟩ := performCommands_of_checked hbefore
  exact ⟨overflow.given_ne_saturated, before, command, after, hsplit, hsaturating, hcommand⟩

private def fresh : Document :=
  start "t.1" {} {}

private def least : Text :=
  "0-9223372036854775807-5"

private def leastNegated : Text :=
  "-(0-9223372036854775807-5)"

private def setGreatest : Request :=
  { name := "nr", arguments := ["x", "9223372036854775807", "1"], rest := [], line := [] }

private def increase : Request :=
  { name := "nr", arguments := ["x", "+1"], rest := [], line := [] }

/-- The negation of the least word is the least word again, and a register with the greatest word steps to the least
one. -/
theorem performCommands_saturates_least :
    (∃ result, fresh.performCommandsWith .checked [.evaluate least] = .ok result ∧
      fresh.performCommandsWith .saturating [.evaluate least] = .ok result) ∧
    (∃ overflow, fresh.performCommandsWith .checked [.evaluate leastNegated] = .error overflow ∧
      overflow.given ≠ overflow.saturated) ∧
    (fresh.formatter.evaluate leastNegated).1 = .ok Int64.minValue ∧
    (fresh.formatter.evaluateWith .saturating leastNegated).toOption.map Prod.fst = some (.ok Int64.maxValue) ∧
    ((fresh.setNumber setGreatest).formatter.stepRegister "x" 1).1 = Int64.minValue ∧
    ((fresh.setNumber setGreatest).setNumber increase).formatter.register "x" = Int64.minValue := by
  have hfits : (fresh.performCommandsWith .checked [.evaluate least]).toOption.isSome = true := by decide +kernel
  have hoverflows : (fresh.performCommandsWith .checked [.evaluate leastNegated]).toOption.isNone = true := by
    decide +kernel
  refine ⟨?_, ?_, by decide +kernel, by decide +kernel, by decide +kernel, by decide +kernel⟩
  · cases hchecked : fresh.performCommandsWith .checked [.evaluate least] with
    | ok result => exact ⟨result, rfl, ((performCommands_saturates fresh [.evaluate least]).1 result hchecked).2⟩
    | error overflow =>
      rw [hchecked] at hfits
      cases hfits
  · cases hchecked : fresh.performCommandsWith .checked [.evaluate leastNegated] with
    | ok result =>
      rw [hchecked] at hoverflows
      cases hoverflows
    | error overflow =>
      exact ⟨overflow, rfl, ((performCommands_saturates fresh [.evaluate leastNegated]).2 overflow hchecked).1⟩

end Document

end RoffDocBook
