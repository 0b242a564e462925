import RoffDocBook.Formatter.Condition

/-! Reading the registers of a text, an expression or a guard changes no more of the formatter than the values of
registers. -/
namespace RoffDocBook.Formatter
open Text

/-- Two states of the formatter that differ in their registers at most. -/
def Recounts (before after : State) : Prop :=
  after = { before with registers := after.registers }

namespace Recounts
variable {a b c : State}

theorem refl (a : State) : Recounts a a :=
  rfl

theorem trans (h : Recounts a b) (k : Recounts b c) : Recounts a c := by
  unfold Recounts at h k ⊢
  rw [h] at k
  exact k

theorem invocations (h : Recounts a b) : b.invocations = a.invocations := by
  unfold Recounts at h
  rw [h]

end Recounts

namespace State

theorem recounts_setRegister (s : State) (name : String) (value step : Int64) :
    Recounts s (s.setRegister name value step) :=
  rfl

theorem recounts_stepRegister (s : State) (name : String) (sign : Int64) :
    Recounts s (s.stepRegister name sign).2 := by
  unfold stepRegister
  split
  · exact s.recounts_setRegister _ _ _
  · exact .refl s

theorem recounts_readRegister (s : State) (t : Text) : Recounts s (s.readRegister t).2.2 := by
  unfold readRegister
  split
  · exact s.recounts_stepRegister _ _
  · exact s.recounts_stepRegister _ _
  · exact .refl s

theorem recounts_interpolate (s : State) (t : Text) : Recounts s (s.interpolate t).2 := by
  fun_induction interpolate s t with
  | case1 s => exact .refl s
  | case2 s rest found result ih => exact (s.recounts_readRegister rest).trans ih
  | case3 s c rest _ result ih => exact ih
  | case4 s c rest _ _ result ih => exact ih

end State

theorem recounts_reading (fuel : Nat) :
    (∀ s t, Recounts s (readExpression fuel s t).2) ∧
      (∀ s value t, Recounts s (readOperations fuel s value t).2) ∧
        ∀ s t, Recounts s (readTerm fuel s t).2 := by
  induction fuel with
  | zero => exact ⟨fun s _ => .refl s, fun s _ _ => .refl s, fun s _ => .refl s⟩
  | succ fuel ih =>
    obtain ⟨hexpression, hoperations, hterm⟩ := ih
    refine ⟨fun s t => ?_, fun s value t => ?_, fun s t => ?_⟩
    · have h := hterm s t
      rw [readExpression]
      generalize readTerm fuel s t = reading at h
      match reading with
      | (.ok (value, rest), next) => exact h.trans (hoperations next value rest)
      | (.error e, next) => exact h
    · rw [readOperations]
      split
      · exact .refl s
      · rename_i op rest _
        have h := hterm s rest
        generalize readTerm fuel s rest = reading at h
        match reading with
        | (.error e, next) => exact h
        | (.ok (operand, rest), next) =>
          dsimp only
          split
          · exact h
          · exact h.trans (hoperations next _ rest)
    · rw [readTerm]
      split
      · exact .refl s
      · rename_i rest _
        have h := hterm s rest
        generalize readTerm fuel s rest = reading at h
        match reading with
        | (.ok _, next) => exact h
        | (.error _, next) => exact h
      · rename_i rest _
        have h := hterm s rest
        generalize readTerm fuel s rest = reading at h
        match reading with
        | (.ok _, next) => exact h
        | (.error _, next) => exact h
      · exact hterm s _
      · rename_i rest _
        have h := hexpression s rest
        generalize readExpression fuel s rest = reading at h
        match reading with
        | (.ok _, next) =>
          dsimp only
          split <;> exact h
        | (.error _, next) => exact h
      · exact s.recounts_readRegister _
      · exact .refl s
      · split
        · exact .refl s
        · split <;> exact .refl s

namespace State

theorem recounts_evaluate (s : State) (t : Text) : Recounts s (s.evaluate t).2 := by
  have h := (recounts_reading (2 * t.length + 2)).1 s t
  unfold evaluate
  generalize readExpression (2 * t.length + 2) s t = reading at h
  match reading with
  | (.ok (_, []), next) => exact h
  | (.ok (_, _ :: _), next) => exact h
  | (.error _, next) => exact h

theorem recounts_guardValue (s : State) (t : Text) : Recounts s (s.guardValue t).2.2 := by
  unfold guardValue
  split
  · exact .refl s
  · split
    · exact .refl s
    · split
      · exact .refl s
      · split
        · dsimp only
          split <;> exact .refl s
        · exact s.recounts_evaluate _

theorem recounts_condition (s : State) (t : Text) : Recounts s (s.condition t).2 := by
  have h := s.recounts_guardValue (if ((trimStart t).head? == some '!') = true then (trimStart t).drop 1 else trimStart t)
  unfold condition
  dsimp only
  generalize s.guardValue _ = value at h
  match value with
  | (.ok _, _, next) => exact h
  | (.error _, _, next) => exact h

end State

end RoffDocBook.Formatter

/-! Guards and their negations. A guard takes the beginning of a text, and an exclamation mark in front of it changes
nothing but the value of a guard that is understood. -/
namespace RoffDocBook.Formatter
open Text

/-- A numeric guard is a beginning of the text. -/
theorem guardExtent_parts (depth : Nat) (delimiter : Option Char) (t : Text) :
    (guardExtent depth delimiter t).1 ++ (guardExtent depth delimiter t).2 = t := by
  fun_induction guardExtent depth delimiter t with
  | case1 => rfl
  | case2 _ _ c cs found ih => exact congrArg (c :: ·) ih
  | case3 _ _ cs found ih => exact congrArg ('\\' :: 'w' :: _ :: ·) ih
  | case4 _ _ cs found ih => exact congrArg ('\\' :: 'B' :: _ :: ·) ih
  | case5 => rfl
  | case6 => rfl
  | case7 _ c cs _ _ _ _ _ found ih => exact congrArg (c :: ·) ih

/-- Two outcomes with the same statement and the same error: one holds where the other does not, but without an
understood guard both hold. -/
structure Opposed (plain negated : ConditionOutcome) : Prop where
  rest : negated.rest = plain.rest
  error : negated.error = plain.error
  opposite : plain.error = none → negated.value = !plain.value
  unknown : plain.error ≠ none → plain.value = true ∧ negated.value = true

namespace State

/-- The text after a guard ends the text that the guard begins. -/
theorem guardValue_suffix (s : State) (t : Text) : (s.guardValue t).2.1 <:+ t := by
  have numeric : (guardExtent 0 none t).2 <:+ t := ⟨_, guardExtent_parts 0 none t⟩
  unfold guardValue
  split
  · exact List.suffix_refl []
  · rename_i c rest
    have hrest : rest <:+ c :: rest := List.suffix_cons c rest
    split
    · exact hrest
    · split
      · exact ((List.dropWhile_suffix _).trans (List.dropWhile_suffix _)).trans hrest
      · split
        · dsimp only
          split
          · exact List.nil_suffix
          · have hleft : (spanUntil (· == c) rest).2 <:+ c :: rest := (List.dropWhile_suffix _).trans hrest
            have hright : (spanUntil (· == c) ((spanUntil (· == c) rest).2.drop 1)).2 <:+ c :: rest :=
              (List.dropWhile_suffix _).trans ((List.drop_suffix 1 _).trans hleft)
            exact (List.drop_suffix 1 _).trans hright
        · exact numeric

/-- The negation of a guard takes the same text and leaves the same state as the guard. Of a guard that is understood it
has the opposite value; a guard that is not understood holds, and so does its negation. -/
theorem condition_negated (s : State) {guard : Text} (h : ∀ c ∈ guard.head?, c ≠ '!' ∧ isBlank c = false) :
    Opposed (s.condition guard).1 (s.condition ('!' :: guard)).1 ∧
      (s.condition ('!' :: guard)).2 = (s.condition guard).2 ∧
      ∃ taken, guard = taken ++ (s.condition guard).1.rest := by
  have htrim : trimStart guard = guard := by
    cases guard with
    | nil => rfl
    | cons c cs => exact List.dropWhile_cons_of_neg (by simp [(h c rfl).2])
  have hplain : (guard.head? == some '!') = false := by
    rw [beq_eq_false_iff_ne]
    exact fun he => (h '!' he).1 rfl
  have hnegated : trimStart ('!' :: guard) = '!' :: guard :=
    List.dropWhile_cons_of_neg (by decide)
  -- Both outcomes come from one reading of the guard, so all that is left is how each of them is put together.
  have hsuffix := s.guardValue_suffix guard
  simp only [condition, htrim, hnegated, hplain, List.head?_cons, beq_self_eq_true, if_true, Bool.false_eq_true,
    if_false, List.drop_one, List.tail_cons]
  generalize s.guardValue guard = found at hsuffix ⊢
  obtain ⟨result, rest, after⟩ := found
  obtain ⟨taken, htaken⟩ := (List.dropWhile_suffix isBlank).trans hsuffix
  cases result with
  | ok value =>
    exact ⟨⟨rfl, rfl, fun _ => by simp, fun he => absurd rfl he⟩, rfl, taken, htaken.symm⟩
  | error e =>
    exact ⟨⟨rfl, rfl, fun he => (by cases he), fun _ => ⟨rfl, rfl⟩⟩, rfl, taken, htaken.symm⟩

/-- A guard that counts a register up, is negated once more inside, and stands before a block. -/
private def counting : State × Text :=
  (({} : State).setRegister "x" 4 1, "(!\\n+x&lt;6) \\\x7b")

theorem condition_negated_counting :
    (∀ c ∈ counting.2.head?, c ≠ '!' ∧ isBlank c = false) ∧
      Opposed (counting.1.condition counting.2).1 (counting.1.condition ('!' :: counting.2)).1 ∧
      (counting.1.condition ('!' :: counting.2)).2 = (counting.1.condition counting.2).2 ∧
      ∃ taken, counting.2 = taken ++ (counting.1.condition counting.2).1.rest := by
  have h : ∀ c ∈ counting.2.head?, c ≠ '!' ∧ isBlank c = false := by
    rintro c ⟨⟩
    decide
  exact ⟨h, counting.1.condition_negated h⟩

end State

end RoffDocBook.Formatter
