import Reckoner.Double.Basic

/-!
# Arithmetic on doubles

Each operation takes its exact result, in whole units or as a quotient of them, and rounds it once.
Where there is no exact result the rules for infinities and zeros decide. Only division may break
off, at a divisor that is zero; the division that expressions are evaluated with catches this and
puts an answer together from the signs.
-/

namespace Reckoner

namespace Double

def zero : Double :=
  signed false .zero

def infinity : Double :=
  signed false .infinity

/-- The number of units, with its sign, of a finite double. -/
def signedUnits (negative : Bool) (magnitude : Magnitude) : Int :=
  if negative then -magnitude.units else magnitude.units

/-- A whole number of units, rounded; the sign given is for an exact zero. -/
def ofUnits (zeroNegative : Bool) (units : Int) : Double :=
  if units = 0 then signed zeroNegative .zero
  else signed (decide (units < 0)) (.nearest units.natAbs 1)

def one : Double :=
  ofUnits false Magnitude.scale

/-- An exact zero is positive unless both summands are negative. -/
def add : Double → Double → Double
  | signed s m, signed t n =>
    if m.isInfinite then
      if n.isInfinite && s != t then nan else signed s m
    else if n.isInfinite then signed t n
    else ofUnits (s && t) (signedUnits s m + signedUnits t n)
  | _, _ => nan

def sub (x y : Double) : Double :=
  x.add y.negate

def mul : Double → Double → Double
  | signed s m, signed t n =>
    if m.isInfinite || n.isInfinite then
      if m.isZero || n.isZero then nan else signed (s != t) .infinity
    else signed (s != t) (.nearest (m.units * n.units) Magnitude.scale)
  | _, _ => nan

/-- The quotient by a double that is not zero. -/
def quotient : Double → Double → Double
  | signed s m, signed t n =>
    if m.isInfinite then
      if n.isInfinite then nan else signed (s != t) .infinity
    else if n.isInfinite then signed (s != t) .zero
    else signed (s != t) (.nearest (m.units * Magnitude.scale) n.units)
  | _, _ => nan

/-- What division breaks off with. -/
inductive DivisionError
  | zeroDivisor
deriving DecidableEq, Repr

/-- Division breaks off if the divisor equals zero, whatever the dividend is. -/
def divide (x y : Double) : Except DivisionError Double :=
  if y.agrees zero then .error .zeroDivisor else .ok (x.quotient y)

/-- Division that does not break off. -/
def div (x y : Double) : Double :=
  match x.divide y with
  | .ok quotient => quotient
  | .error .zeroDivisor =>
    if x.agrees zero || x.isNan then nan
    else (infinity.copySign x).mul (one.copySign y)

end Double

end Reckoner
