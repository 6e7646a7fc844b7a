import Reckoner.Parser.Repeat
import Reckoner.Double.Decimal

/-!
# Tokens

Numbers and the blank space around tokens. The only blank is the space, the only digits are the
ASCII ones, and a literal is rounded once, from all of its digits.
-/

namespace Reckoner

namespace Parser

variable {ω α : Type}

def digit : Parser ω Char :=
  satisfy Char.isDigit

def integer : Parser ω Double :=
  digit.many1.map fun whole => .ofDigits whole []

def floating : Parser ω Double :=
  digit.many1.bind fun whole =>
    ((char ".").andThen digit.many1).map fun fraction => .ofDigits whole fraction

def skipSpaces : Parser ω Unit :=
  (char " ").many.map fun _ => ()

/-- Makes a parser indifferent to spaces on either side. -/
def token (p : Parser ω α) : Parser ω α :=
  (skipSpaces.andThen p).skip skipSpaces

def symbol (sign : String) : Parser ω Char :=
  token (char sign)

end Parser

end Reckoner
