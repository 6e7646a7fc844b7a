import Reckoner.CommandLine.Request
import Reckoner.Report

/-!
# Responses

What the command line answers: a text for standard output, one for standard error, and a status. The
responses to expressions are put together in order, and none of them stops those that follow; the
status is zero if no part of the response has another one.
-/

namespace Reckoner

structure Response where
  stdout : String
  stderr : String
  status : Nat
deriving DecidableEq, Repr

namespace Response

def empty : Response :=
  ⟨"", "", 0⟩

instance : Append Response where
  append first second :=
    ⟨first.stdout ++ second.stdout, first.stderr ++ second.stderr, max first.status second.status⟩

/-- What a report on an expression that was evaluated puts on standard output, and any other one on
standard error. -/
def ofReport (verbose : Bool) (report : Report) : Response :=
  let grouping (lead : String) : String := match report.tree with
    | some tree => if verbose then lead ++ tree.render ++ "\n" else ""
    | none => ""
  let message := report.message ++ "\n"
  match report.outcome with
  | .evaluated => ⟨grouping " --> " ++ message, "", 0⟩
  | _ => ⟨"", message ++ grouping " -- matched only ", 1⟩

/-- The response to several expressions. -/
def ofExpressions (verbose : Bool) : List String → Exit Response
  | [] => return empty
  | text :: texts => do
    let report ← Report.of text
    let others ← ofExpressions verbose texts
    return ofReport verbose report ++ others

def usage : String :=
  "usage: py -m monadparse [-h] [-v] [expressions ...]\n"

def help : String :=
  usage ++ "\n"
    ++ "Evaluate arithmetic expressions made of numbers, +, * and parentheses. Give\n"
    ++ "expressions as arguments, or give none and type them one per line. A line\n"
    ++ "reading \"quit\" (or end-of-input) ends the session.\n"
    ++ "\n"
    ++ "positional arguments:\n"
    ++ "  expressions    expressions to evaluate; quote them to protect spaces and *\n"
    ++ "                 from the shell\n"
    ++ "\n"
    ++ "options:\n"
    ++ "  -h, --help     show this help message and exit\n"
    ++ "  -v, --verbose  Also show how each expression was grouped.\n"

def ofUsageError (error : UsageError) : Response :=
  ⟨"", usage ++ "py -m monadparse: error: " ++ error.message ++ "\n", 2⟩

/-- The response to a request, given the text of standard input. -/
def ofRequest (request : Request) (stdin : String) : Exit Response :=
  match request with
  | .help => return ⟨help, "", 0⟩
  | .refused error => return ofUsageError error
  | .evaluate _ verbose => ofExpressions verbose (request.expressionsToEvaluate stdin)

end Response

/-- The response to a command line by the rules of a release, given the text of standard input. -/
def respondBy (release : Release) (arguments : List String) (stdin : String) : Exit Response :=
  Response.ofRequest (.ofArguments release arguments) stdin

/-- The release that the program goes by. -/
def Release.inForce : Release :=
  .earlier

/-- The response of the program. -/
def respond (arguments : List String) (stdin : String) : Exit Response :=
  respondBy .inForce arguments stdin

end Reckoner
