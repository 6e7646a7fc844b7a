import Reckoner.Double.Magnitude

/-!
# Doubles

A double is not a number, or it is a magnitude with a sign; the two zeros differ in their sign. Two
doubles agree if they are equal as numbers: the zeros agree, and what is not a number agrees with
nothing, itself included.
-/

namespace Reckoner

inductive Double
  | nan
  | signed (negative : Bool) (magnitude : Magnitude)
deriving DecidableEq

namespace Double

def negate : Double → Double
  | nan => nan
  | signed negative magnitude => signed (!negative) magnitude

def isNan : Double → Bool
  | nan => true
  | signed _ _ => false

/-- The sign, also of a zero; what is not a number counts as positive here. -/
def isNegative : Double → Bool
  | nan => false
  | signed negative _ => negative

/-- The magnitude of the first double with the sign of the second. -/
def copySign : Double → Double → Double
  | nan, _ => nan
  | signed _ magnitude, y => signed y.isNegative magnitude

/-- Equality as numbers. -/
def agrees : Double → Double → Bool
  | signed s m, signed t n => m.rank == n.rank && (s == t || m.isZero)
  | _, _ => false

end Double

end Reckoner
