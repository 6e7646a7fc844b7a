import Reckoner.Parser.Lexical
import Reckoner.Parser.Recursion
import Reckoner.Expr.Basic

/-!
# The grammar of sums and products

A sum is a product, or a product, `+` and a sum; a product is a factor, or a factor, `*` and a
product; a factor is a sum in parentheses or a number. So chains of one operator group to the right.
A left operand is read once: only after it is the operator looked for, and without an operator and a
right operand the left operand alone is the match. Reading it again for the second alternative would
take exponential time on nested parentheses.

The rules can be watched: each is given together with something that is done to its parser, for
instance noting where it is applied.
-/

namespace Reckoner

inductive Rule
  | sum
  | product
  | factor
  | number
deriving DecidableEq, Repr

namespace Grammar

variable {ω α : Type}

/-- An operand alone, or an operand, a sign and a right-hand side. -/
def chain (operand : Parser ω α) (sign : String) (rhs : Parser ω α) (node : α → α → α) :
    Parser ω α :=
  operand.bind fun left =>
    (((Parser.symbol sign).andThen rhs).map (node left)).orElse (.unit left)

section Watched

variable (watch : Rule → Parser ω Expr → Parser ω Expr)

/-- The literal with a fraction comes first, since the one without would match its beginning. -/
def watchedNumber : Parser ω Expr :=
  watch .number ((Parser.token (Parser.floating.orElse .integer)).map .number)

def watchedFactor (sum : Parser ω Expr) : Parser ω Expr :=
  watch .factor
    ((((Parser.symbol "(").andThen sum).skip (.symbol ")")).orElse (watchedNumber watch))

def watchedProduct (sum : Parser ω Expr) : Parser ω Expr :=
  .recursive fun product =>
    watch .product (chain (watchedFactor watch sum) "*" product (.node .times))

def watchedSum : Parser ω Expr :=
  .recursive fun sum =>
    watch .sum (chain (watchedProduct watch sum) "+" sum (.node .plus))

end Watched

def number : Parser ω Expr :=
  watchedNumber fun _ p => p

def sum : Parser ω Expr :=
  watchedSum fun _ p => p

def factor : Parser ω Expr :=
  watchedFactor (fun _ p => p) sum

def product : Parser ω Expr :=
  watchedProduct (fun _ p => p) sum

end Grammar

end Reckoner
