import Reckoner.Fault
import Reckoner.Double.Arithmetic
import Reckoner.Double.Printer

/-!
# Expressions

An expression is a number or an operator between two expressions. It is evaluated from the leaves
up, and it is written with every operation in parentheses.
-/

namespace Reckoner

inductive Operator
  | plus
  | minus
  | times
  | divide
  /-- An operator that has no meaning of its own. -/
  | unspecified
deriving DecidableEq, Repr

namespace Operator

def sign : Operator → Char
  | plus => '+'
  | minus => '-'
  | times => '*'
  | divide => '/'
  | unspecified => '?'

def meaning? : Operator → Option (Double → Double → Double)
  | plus => some .add
  | minus => some .sub
  | times => some .mul
  | divide => some .div
  | unspecified => none

end Operator

inductive Expr
  | number (value : Double)
  | node (op : Operator) (left right : Expr)
deriving DecidableEq

namespace Expr

/-- The value, or a fault if an operator that has no meaning occurs anywhere. -/
def evaluate : Expr → Except Fault Double
  | number value => .ok value
  | node op left right => do
    let x ← left.evaluate
    let y ← right.evaluate
    match op.meaning? with
    | some meaning => .ok (meaning x y)
    | none => .error .unspecifiedOperator

/-- The text of the expression, followed by the given text. -/
def textBefore : Expr → List Char → List Char
  | number value, following => value.text ++ following
  | node op left right, following =>
    '(' :: left.textBefore (' ' :: op.sign :: ' ' :: right.textBefore (')' :: following))

def text (e : Expr) : List Char :=
  e.textBefore []

def render (e : Expr) : String :=
  String.ofList e.text

/-- The same shape and operators, with leaves that agree as numbers. -/
def agrees : Expr → Expr → Bool
  | number x, number y => x.agrees y
  | node op left right, node op' left' right' =>
    op == op' && left.agrees left' && right.agrees right'
  | _, _ => false

end Expr

end Reckoner
