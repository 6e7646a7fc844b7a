/-!
# Blank characters

The characters that count as blank at the ends of a line: those of Unicode that separate words or
lines, or space them out. Trimming takes all of them off both ends of a text and leaves what lies
between as it is.
-/

namespace Reckoner

namespace Blank

/-- The runs of blank characters, each by its first and its last code point, in increasing order. -/
def ranges : List (Nat × Nat) := [
  (0x0009, 0x000D), (0x001C, 0x0020), (0x0085, 0x0085), (0x00A0, 0x00A0), (0x1680, 0x1680),
  (0x2000, 0x200A), (0x2028, 0x2029), (0x202F, 0x202F), (0x205F, 0x205F), (0x3000, 0x3000)
]

end Blank

def isBlank (c : Char) : Bool :=
  Blank.ranges.any fun (first, last) => first ≤ c.toNat && c.toNat ≤ last

/-- The text without the blanks at its beginning and its end. -/
def trim (text : List Char) : List Char :=
  ((text.dropWhile isBlank).reverse.dropWhile isBlank).reverse

end Reckoner
