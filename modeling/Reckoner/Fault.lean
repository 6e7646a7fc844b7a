/-!
# Faults

The three reasons for which a computation breaks off without an answer. A parser that does not match
is no fault: it answers that it does not match.
-/

namespace Reckoner

inductive Fault
  /-- A character was asked for before the beginning of the text. -/
  | outOfRange
  /-- The operator with no meaning of its own was to be evaluated. -/
  | unspecifiedOperator
  /-- A rule was looked up that the grammar does not have. -/
  | undefinedRule (name : String)
deriving DecidableEq, Repr

def Fault.message : Fault → String
  | outOfRange => "string index out of range"
  | unspecifiedOperator => ""
  | undefinedRule name => name

end Reckoner
