import Reckoner.Double.Shortest

/-!
# Writing doubles

A double is written with the digits of its shortest decimal. They are laid out around a point, with
at least one digit on either side, if the point falls near them; otherwise as one digit, a fraction
and an exponent.
-/

namespace Reckoner

/-- With the value being `0.d₁d₂…` times ten to some power, the least and the greatest power at
which the digits are laid out around a point, and the least number of digits of an exponent. -/
structure DecimalLayout where
  leastPower : Int
  greatestPower : Int
  exponentDigits : Nat

namespace DecimalLayout

def digitsOf (value : Nat) : List Char :=
  Nat.toDigits 10 value

def zeros (count : Nat) : List Char :=
  List.replicate count '0'

/-- The digits up to the last one that is not zero. -/
def withoutTrailingZeros (digits : List Char) : List Char :=
  (digits.reverse.dropWhile (· == '0')).reverse

/-- The digits around a point that comes after as many of them as the power says. -/
def aroundPoint (digits : List Char) (power : Int) : List Char :=
  let whole := digits.take power.toNat ++ zeros (power.toNat - digits.length)
  let fraction := zeros (-power).toNat ++ digits.drop power.toNat
  (if whole.isEmpty then ['0'] else whole) ++ '.' :: (if fraction.isEmpty then ['0'] else fraction)

def exponentText (layout : DecimalLayout) (exponent : Int) : List Char :=
  let digits := digitsOf exponent.natAbs
  (if exponent < 0 then '-' else '+') :: zeros (layout.exponentDigits - digits.length) ++ digits

def scientific (layout : DecimalLayout) (digits : List Char) (power : Int) : List Char :=
  digits.take 1 ++ (if digits.length ≤ 1 then [] else '.' :: digits.drop 1)
    ++ 'e' :: layout.exponentText (power - 1)

/-- The text of a decimal; zero is written around a point. -/
def text (layout : DecimalLayout) (d : Decimal) : List Char :=
  let digits := withoutTrailingZeros (digitsOf d.digits)
  let power : Int := if d.digits = 0 then 0 else (digitsOf d.digits).length + d.exponent
  if layout.leastPower ≤ power ∧ power ≤ layout.greatestPower then aroundPoint digits power
  else layout.scientific digits power

end DecimalLayout

namespace Double

/-- Numbers from 0.0001 on and below 10 ^ 16 are laid out around a point, and an exponent has at
least two digits. -/
def layout : DecimalLayout :=
  ⟨-3, 16, 2⟩

def magnitudeText (m : Magnitude) : List Char :=
  if m.isInfinite then "inf".toList
  else layout.text (if m.isZero then ⟨0, 0⟩ else m.shortest)

/-- The text of a double; the sign of what is not a number is not shown. -/
def text : Double → List Char
  | nan => "nan".toList
  | signed true m => '-' :: magnitudeText m
  | signed false m => magnitudeText m

def render (x : Double) : String :=
  String.ofList x.text

end Double

end Reckoner
