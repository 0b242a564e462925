/-! Signed words of 64 bits with arithmetic that stays at the ends of their range. -/
namespace RoffDocBook.Word

/-- The numbers of words of 32, 63 and 64 bits. -/
def count32 : Nat := 4294967296

def count63 : Nat := 9223372036854775808

def count64 : Nat := 18446744073709551616

def least : Int := -9223372036854775808

def greatest : Int := 9223372036854775807

/-- The word nearest to an integer. -/
def clamp (n : Int) : Int64 :=
  Int64.ofInt (max least (min greatest n))

def add (a b : Int64) : Int64 :=
  clamp (a.toInt + b.toInt)

def sub (a b : Int64) : Int64 :=
  clamp (a.toInt - b.toInt)

def mul (a b : Int64) : Int64 :=
  clamp (a.toInt * b.toInt)

/-- The quotient toward zero, unless the divisor is zero or the quotient is out of range. -/
def div? (a b : Int64) : Option Int64 :=
  if b = 0 || (a.toInt == least && b = -1) then none else some (Int64.ofInt (a.toInt.tdiv b.toInt))

/-- The remainder of the quotient toward zero, where there is such a quotient. -/
def rem? (a b : Int64) : Option Int64 :=
  if b = 0 || (a.toInt == least && b = -1) then none else some (Int64.ofInt (a.toInt.tmod b.toInt))

/-- One for true and zero for false. -/
def ofBool (b : Bool) : Int64 :=
  if b then 1 else 0

end RoffDocBook.Word
