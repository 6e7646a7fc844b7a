import Reckoner.Double.Decimal

/-!
# Reading doubles

The form in which doubles are written is read back here: an optional sign, and then `inf`, or digits
with an optional fraction and an optional exponent; or `nan`.
-/

namespace Reckoner

namespace Decimal

/-- The longest run of ASCII digits at the beginning, and what follows it. -/
def spanDigits (text : List Char) : List Char × List Char :=
  (text.takeWhile Char.isDigit, text.dropWhile Char.isDigit)

/-- An exponent with an optional sign. -/
def readExponent? (text : List Char) : Option Int :=
  let read (digits : List Char) : Option Int :=
    if digits.isEmpty || !digits.all Char.isDigit then none else some (valueOfDigits digits)
  match text with
  | '-' :: digits => (read digits).map (- ·)
  | '+' :: digits => read digits
  | digits => read digits

/-- Digits, an optional fraction and an optional exponent. -/
def read? (text : List Char) : Option Decimal :=
  let (whole, afterWhole) := spanDigits text
  let (fraction, afterFraction) := match afterWhole with
    | '.' :: rest => spanDigits rest
    | rest => ([], rest)
  let unscaled := ofDigits whole fraction
  if whole.isEmpty then none
  else match afterFraction with
    | [] => some unscaled
    | 'e' :: rest => (readExponent? rest).map fun exponent =>
        ⟨unscaled.digits, unscaled.exponent + exponent⟩
    | _ => none

end Decimal

namespace Double

def readMagnitude? (text : List Char) : Option Magnitude :=
  if text = "inf".toList then some .infinity
  else (Decimal.read? text).map Decimal.nearest

def read? (text : List Char) : Option Double :=
  if text = "nan".toList then some nan
  else match text with
    | '-' :: rest => (readMagnitude? rest).map (signed true)
    | rest => (readMagnitude? rest).map (signed false)

end Double

end Reckoner
