import RoffDocBook.Number.Binary64
import RoffDocBook.Number.Word

/-! A positive whole number stays positive where it is rounded to a floating-point number and kept within a word, and
one within the significand stays as it is. -/
namespace RoffDocBook

namespace Binary64

theorem quotient_le_roundEven (numerator denominator : Nat) :
    numerator / denominator ≤ roundEven numerator denominator := by
  unfold roundEven
  dsimp only
  split
  · exact Nat.le_refl _
  · split
    · exact Nat.le_succ _
    · split
      · exact Nat.le_refl _
      · exact Nat.le_succ _

theorem roundUp_pos {value : Fraction} (hd : 0 < value.2) (h : value.2 ≤ 2 * value.1) : 0 < roundUp value :=
  Nat.div_pos (by omega) (by omega)

theorem roundUp_nearest_pos {n : Nat} (h : 0 < n) : 0 < roundUp (nearest (n, 1)) := by
  have hn : n ≠ 0 := Nat.pos_iff_ne_zero.mp h
  unfold nearest
  rw [if_neg (by simpa using hn)]
  dsimp only
  generalize hs : min (1074 : Int) _ = shift
  have hlow : 52 - (Nat.log2 n : Int) ≤ shift ∨ shift = 1074 := by
    rw [← hs, show Nat.log2 1 = 0 from rfl]
    split <;> omega
  split
  · rename_i hpos
    have hp : 0 < Nat.pow 2 shift.toNat := Nat.two_pow_pos _
    have hsig := quotient_le_roundEven (n * Nat.pow 2 shift.toNat) 1
    rw [Nat.div_one] at hsig
    refine roundUp_pos hp ?_
    dsimp only
    have hmul : Nat.pow 2 shift.toNat ≤ n * Nat.pow 2 shift.toNat := Nat.le_mul_of_pos_left _ h
    omega
  · rename_i hneg
    have hp : 0 < Nat.pow 2 (-shift).toNat := Nat.two_pow_pos _
    have hle : Nat.pow 2 (-shift).toNat ≤ n :=
      Nat.le_trans (Nat.pow_le_pow_right (by decide) (show (-shift).toNat ≤ Nat.log2 n by omega)) (Nat.log2_self_le hn)
    have hsig := quotient_le_roundEven n (1 * Nat.pow 2 (-shift).toNat)
    rw [Nat.one_mul] at hsig ⊢
    have hone : 0 < roundEven n (Nat.pow 2 (-shift).toNat) := Nat.lt_of_lt_of_le (Nat.div_pos hle hp) hsig
    refine roundUp_pos Nat.one_pos ?_
    dsimp only
    have := Nat.mul_pos hone hp
    omega

theorem roundUp_nearest_zero : roundUp (nearest (0, 1)) = 0 :=
  rfl

theorem roundEven_one (n : Nat) : roundEven n 1 = n := by
  simp [roundEven, Nat.mod_one]

/-- A whole number within the 53 bits of a significand is not changed. -/
theorem roundUp_nearest {n : Nat} (h : n < Nat.pow 2 53) : roundUp (nearest (n, 1)) = n := by
  rcases Nat.eq_zero_or_pos n with rfl | hn
  · rfl
  have hne : n ≠ 0 := Nat.pos_iff_ne_zero.mp hn
  have hlog : Nat.log2 n ≤ 52 := Nat.lt_succ_iff.mp ((Nat.log2_lt hne).mpr h)
  -- the binary places after the point fill the significand
  obtain ⟨places, hplaces⟩ := Nat.exists_eq_add_of_le hlog
  have hguess : 52 - (Nat.log2 n : Int) + (Nat.log2 1 : Int) = places := by
    rw [show Nat.log2 1 = 0 from rfl]
    omega
  have hfits : 4503599627370496 ≤ n * 2 ^ places := by
    calc 4503599627370496 = 2 ^ Nat.log2 n * 2 ^ places := by rw [← Nat.pow_add, ← hplaces]
      _ ≤ n * 2 ^ places := Nat.mul_le_mul_right _ (Nat.log2_self_le hne)
  have hmin : min (1074 : Int) places = places := by omega
  have hnearest : nearest (n, 1) = (n * 2 ^ places, 2 ^ places) := by
    unfold nearest
    simp [hne, hguess, hfits, hmin, roundEven_one]
  have hp : 0 < 2 ^ places := Nat.two_pow_pos _
  rw [hnearest, roundUp]
  dsimp only
  rw [Nat.mul_left_comm, Nat.add_comm, Nat.add_mul_div_right _ _ (by omega), Nat.div_eq_of_lt (by omega), Nat.zero_add]

end Binary64

namespace Word

theorem toInt_clamp (n : Int) : (clamp n).toInt = max least (min greatest n) := by
  refine Int64.toInt_ofInt_of_le ?_ ?_ <;> simp only [least, greatest] <;> omega

theorem clamp_pos_iff {n : Nat} : 0 < clamp n ↔ 0 < n := by
  rw [Int64.lt_iff_toInt_lt, toInt_clamp]
  simp only [least, greatest, Int64.toInt_zero]
  omega

/-- The negative of a word is not positive if the word is not negative. -/
theorem not_pos_neg_clamp (n : Nat) : ¬ 0 < -clamp n := by
  rw [Int64.lt_iff_toInt_lt, Int64.toInt_neg, toInt_clamp]
  simp only [least, greatest, Int64.toInt_zero, Int.bmod]
  omega

end Word

end RoffDocBook
