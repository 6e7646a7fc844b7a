import Reckoner.Expr.Grammar

/-!
# Reports

Reading a whole text as a sum goes one of three ways: the grammar does not match, it matches only a
first part, or it matches everything and the expression is evaluated. A report says which. The same
answer can be had as a value or an error.
-/

namespace Reckoner

inductive Outcome
  | failed
  | incomplete
  | evaluated
deriving DecidableEq, Repr

structure Report where
  text : String
  outcome : Outcome
  tree : Option Expr
  value : Option Double
  /-- Where matching stopped, if it did not reach the end. -/
  stop : Option Int
deriving DecidableEq

namespace Report

def message (report : Report) : String :=
  match report.outcome with
  | .failed => "parsing failed"
  | .incomplete => "not all input consumed"
  | .evaluated =>
    let value := (report.value.map Double.render).getD "None"
    "expression " ++ report.text ++ " was evaluated. Result is " ++ value

/-- The report on reading a text. -/
def of (text : String) : Exit Report := do
  match ← (Grammar.sum : Parser Empty Expr).run (.ofString text) |>.exit with
  | none => return ⟨text, .failed, none, none, none⟩
  | some parsed =>
    if parsed.rest.atEnd then
      let value ← Exit.ofExcept parsed.value.evaluate
      return ⟨text, .evaluated, some parsed.value, some value, none⟩
    else return ⟨text, .incomplete, some parsed.value, none, some parsed.rest.offset⟩

end Report

/-- Why a text has no value. -/
inductive ExpressionError
  | parsingFailed (text : String)
  /-- The grammar matched only what comes before the position. -/
  | incompleteParse (text : String) (position : Int)
deriving DecidableEq, Repr

/-- The text from the position on; a negative position counts from the end. -/
def leftover (text : String) (position : Int) : String :=
  ((Cursor.ofString text).advance position).rest

/-- The value of a text. -/
def evaluateText (text : String) : Exit (Except ExpressionError Double) := do
  let report ← Report.of text
  match report.outcome, report.stop, report.value with
  | .evaluated, _, some value => return .ok value
  | .incomplete, some stop, _ => return .error (.incompleteParse text stop)
  | _, _, _ => return .error (.parsingFailed text)

end Reckoner
