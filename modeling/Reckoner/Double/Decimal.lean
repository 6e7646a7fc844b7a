import Reckoner.Double.Basic

/-!
# Decimals

A decimal is a whole number of units of some power of ten. Reading one as a double rounds its exact
value once, whatever the number of its digits.
-/

namespace Reckoner

structure Decimal where
  digits : Nat
  exponent : Int
deriving DecidableEq, Repr

namespace Decimal

/-- The value of a sequence of ASCII digits. -/
def valueOfDigits (digits : List Char) : Nat :=
  digits.foldl (fun value digit => 10 * value + (digit.toNat - '0'.toNat)) 0

/-- What a literal denotes with these digits before and after its point. -/
def ofDigits (whole fraction : List Char) : Decimal :=
  ⟨valueOfDigits (whole ++ fraction), -fraction.length⟩

/-- Numerator and denominator of the value. -/
def numerator (d : Decimal) : Nat :=
  d.digits * Nat.pow 10 d.exponent.toNat

def denominator (d : Decimal) : Nat :=
  Nat.pow 10 (-d.exponent).toNat

/-- The magnitude nearest to the value. -/
def nearest (d : Decimal) : Magnitude :=
  .nearest (d.numerator * Magnitude.scale) d.denominator

end Decimal

/-- The double that a literal is read as, given the digits before and after its point. -/
def Double.ofDigits (whole fraction : List Char) : Double :=
  .signed false (Decimal.ofDigits whole fraction).nearest

end Reckoner
