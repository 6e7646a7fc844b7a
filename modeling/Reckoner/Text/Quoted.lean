import Reckoner.Text.Printable

/-!
# Quoted text

A text is shown between quotes, so that its ends and every character that could not be seen can be
told. Single quotes are taken unless the text has such a quote and no double one. The quote taken
and the backslash are escaped, and so is every character that is not printable: tab, line feed and
carriage return by a letter, the others by their code point.
-/

namespace Reckoner

namespace Quoted

def hexDigits (width value : Nat) : List Char :=
  let digits := Nat.toDigits 16 value
  List.replicate (width - digits.length) '0' ++ digits

def escape (quote c : Char) : List Char :=
  if c = quote ∨ c = '\\' then ['\\', c]
  else if c = '\t' then ['\\', 't']
  else if c = '\n' then ['\\', 'n']
  else if c = '\r' then ['\\', 'r']
  else if isPrintable c then [c]
  else if c.toNat < 0x100 then '\\' :: 'x' :: hexDigits 2 c.toNat
  else if c.toNat < 0x10000 then '\\' :: 'u' :: hexDigits 4 c.toNat
  else '\\' :: 'U' :: hexDigits 8 c.toNat

end Quoted

def quoted (text : List Char) : List Char :=
  let quote := if text.contains '\'' && !text.contains '"' then '"' else '\''
  quote :: text.flatMap (Quoted.escape quote) ++ [quote]

end Reckoner
