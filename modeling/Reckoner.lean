import Reckoner.Main
import Reckoner.Double.Reader
import Reckoner.Proofs.Parser.Repeat
import Reckoner.Proofs.Text.Ahead
import Reckoner.Proofs.Double.Layout
import Reckoner.Proofs.Grammar.Course
import Reckoner.Proofs.Grammar.Exactness
import Reckoner.Proofs.Grammar.Visits
import Reckoner.Proofs.Report.Printing
import Reckoner.Proofs.Grammar.Reach
import Reckoner.Proofs.Grammar.Alternatives
import Reckoner.Proofs.Grammar.Layouts
import Reckoner.Proofs.Report.Spacing
import Reckoner.Proofs.Report.Grouping
import Reckoner.Proofs.Report.Accord
import Reckoner.Proofs.Parser.CarryOver
import Reckoner.Proofs.Parser.Laws
import Reckoner.Proofs.Parser.Parts
import Reckoner.Proofs.Parser.Forward
import Reckoner.Proofs.Grammar.Nesting
import Reckoner.Proofs.Grammar.View
import Reckoner.Proofs.Report.Substitution
import Reckoner.Proofs.Parser.Rounds
import Reckoner.Proofs.Double.Characters
import Reckoner.Proofs.CommandLine.Answers
import Reckoner.Proofs.Text.Lines
import Reckoner.Proofs.Session.Entries
import Reckoner.Proofs.CommandLine.Endings
import Reckoner.Proofs.Parser.Number
import Reckoner.Proofs.Double.ReadBack
import Reckoner.Proofs.Expr.Printed
import Reckoner.Proofs.Session.Quit
import Reckoner.Proofs.Double.Nearest
import Reckoner.Proofs.Double.Exact
import Reckoner.Proofs.Expr.Evaluation
import Reckoner.Proofs.Parser.Trim
import Reckoner.Proofs.Double.Range
import Reckoner.Proofs.Parser.Denoted
