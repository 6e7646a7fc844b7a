import Reckoner.Double.Decimal

/-!
# The shortest decimal

The decimal that a positive finite magnitude is written as is the shortest one that is read back as
this magnitude, the nearest one of those, and the one with an even last digit if two are equally
near. For each number of digits only the two neighbours of the exact value on that grid can be
candidates, and a candidate is taken only if it reads back. Seventeen digits are always enough;
after them the exact value would be written, so what is written reads back in any case.
-/

namespace Reckoner

namespace Magnitude

/-- The exact value of a number of units as a decimal. -/
def exactDecimal (m : Magnitude) : Decimal :=
  ⟨m.units * Nat.pow 5 1074, -1074⟩

/-- So many decimal places are kept of the value that even the smallest one has eighteen digits. -/
def places : Nat :=
  341

/-- The value in units of the last place kept, rounded down. -/
def scaled (m : Magnitude) : Nat :=
  m.units * Nat.pow 10 places / scale

/-- The neighbour of the value, on the grid that drops so many of the places kept, that reads back;
the nearer one if both do. -/
def onGrid? (m : Magnitude) (dropped : Nat) : Option Decimal :=
  let step := Nat.pow 10 dropped
  let below := m.scaled / step
  let exponent : Int := dropped - places
  let lower : Decimal := ⟨below, exponent⟩
  let upper : Decimal := ⟨below + 1, exponent⟩
  if lower.nearest = m then
    if upper.nearest = m then
      let value := 2 * m.units * Nat.pow 10 places
      let middle := (2 * below + 1) * step * scale
      if value < middle ∨ value = middle ∧ below % 2 = 0 then some lower else some upper
    else some lower
  else if upper.nearest = m then some upper
  else none

/-- The shortest decimal with at most seventeen digits that reads back. -/
def shortest (m : Magnitude) : Decimal :=
  let length := (Nat.toDigits 10 m.scaled).length
  ((List.range 17).findSome? fun extra => m.onGrid? (length - 1 - extra)).getD m.exactDecimal

end Magnitude

end Reckoner
