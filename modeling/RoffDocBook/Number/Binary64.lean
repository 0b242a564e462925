import RoffDocBook.Text.Basic

/-! Non-negative fractions rounded to the nearest floating-point number with a significand of 53 bits, and to the
nearest whole number. A tie between two floating-point numbers goes to the one with an even significand, and a tie
between whole numbers goes up. -/
namespace RoffDocBook.Binary64

/-- A fraction as numerator and denominator. -/
abbrev Fraction := Nat × Nat

/-- The quotient rounded to the nearest whole number, a tie to the even one. -/
def roundEven (numerator denominator : Nat) : Nat :=
  let quotient := numerator / denominator
  let twice := 2 * (numerator % denominator)
  if twice < denominator then quotient
  else if denominator < twice then quotient + 1
  else if quotient % 2 == 0 then quotient else quotient + 1

/-- The quotient rounded to the nearest whole number, a tie up. -/
def roundUp (value : Fraction) : Nat :=
  (2 * value.1 + value.2) / (2 * value.2)

/-- The nearest floating-point number as a fraction again; `shift` binary places after the point are those that a
significand of 53 bits leaves, at most 1074 of them. -/
def nearest (value : Fraction) : Fraction :=
  if value.1 == 0 then (0, 1)
  else
    let scaled (shift : Int) : Fraction :=
      if 0 ≤ shift then (value.1 * Nat.pow 2 shift.toNat, value.2) else (value.1, value.2 * Nat.pow 2 (-shift).toNat)
    let guess : Int := 52 - (Nat.log2 value.1 : Int) + (Nat.log2 value.2 : Int)
    let fits (shift : Int) : Bool := 4503599627370496 * (scaled shift).2 ≤ (scaled shift).1
    let shift := min 1074 (if fits guess then guess else guess + 1)
    let significand := roundEven (scaled shift).1 (scaled shift).2
    if 0 ≤ shift then (significand, Nat.pow 2 shift.toNat) else (significand * Nat.pow 2 (-shift).toNat, 1)

/-- The fraction that a decimal numeral stands for. There may be one point, and there must be a digit. -/
def decimal? (t : Text) : Option Fraction :=
  let digits (ds : Text) : Nat := ds.foldl (fun n c => 10 * n + (c.toNat - '0'.toNat)) 0
  match Text.splitOn '.' t with
  | [whole] => if whole.isEmpty || !whole.all Char.isDigit then none else some (digits whole, 1)
  | [whole, rest] =>
    if (whole.isEmpty && rest.isEmpty) || !(whole ++ rest).all Char.isDigit then none
    else some (digits (whole ++ rest), Nat.pow 10 rest.length)
  | _ => none

end RoffDocBook.Binary64
