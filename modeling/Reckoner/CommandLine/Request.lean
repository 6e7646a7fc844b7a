import Reckoner.CommandLine.Arguments
import Reckoner.Session

/-!
# Requests

What a command line asks for: the help text, or the evaluation of some expressions, unless it is
refused. Flags act in the order in which they are met. The expressions are the first run of
arguments that are taken for expressions, without the mark; everything later that is not a flag is
unrecognized, and so is an argument that only looks like a flag. If there are no expressions they
come from a session on standard input.
-/

namespace Reckoner

inductive Request
  | help
  | refused (error : UsageError)
  | evaluate (expressions : List String) (verbose : Bool)
deriving DecidableEq, Repr

namespace Request

/-- How far the run of expressions has come. -/
inductive Run
  | awaited
  | underway
  | closed
deriving DecidableEq, Repr

/-- What has been gathered from the arguments so far. -/
structure Gathered where
  run : Run
  expressions : List String
  verbose : Bool
  unrecognized : List String
deriving DecidableEq, Repr

namespace Gathered

def start : Gathered :=
  ⟨.awaited, [], false, []⟩

/-- An expression, or the mark, starts the run or carries it on, and is unrecognized after it. -/
def expression (g : Gathered) (text : String) (kept : List String) : Gathered :=
  match g.run with
  | .closed => { g with unrecognized := g.unrecognized ++ [text] }
  | _ => { g with run := .underway, expressions := g.expressions ++ kept }

/-- Anything but an expression ends a run that has begun. -/
def interrupted (g : Gathered) : Gathered :=
  match g.run with
  | .underway => { g with run := .closed }
  | _ => g

def notUnderstood (g : Gathered) (text : String) : Gathered :=
  { g.interrupted with unrecognized := g.unrecognized ++ [text] }

end Gathered

/-- What the remaining arguments and those already gathered ask for together. -/
def gather (g : Gathered) : List Argument → Request
  | [] =>
    if g.unrecognized.isEmpty then evaluate g.expressions g.verbose
    else refused (.unrecognized g.unrecognized)
  | ⟨text, role⟩ :: arguments => match role with
    | .expression => gather (g.expression text [text]) arguments
    | .mark => gather (g.expression text []) arguments
    | .flags given =>
      if given.contains .help then help
      else gather { g.interrupted with verbose := true } arguments
    | .flagsBefore given letters =>
      if given.contains .help then help
      else gather { g.notUnderstood (String.ofList ('-' :: letters)) with verbose := true } arguments
    | .valued flag value => refused (.valueGiven flag value)
    | .ambiguous candidates => refused (.ambiguous text candidates)
    | .unknown => gather (g.notUnderstood text) arguments

/-- The first argument that may be several flags. -/
def ambiguity? (arguments : List Argument) : Option UsageError :=
  arguments.findSome? fun argument => match argument.role with
    | .ambiguous candidates => some (.ambiguous argument.text candidates)
    | _ => none

/-- An ambiguous argument is refused before any flag acts. -/
def ofArguments (release : Release) (texts : List String) : Request :=
  let arguments := Argument.classify release texts
  match ambiguity? arguments with
  | some error => refused error
  | none => gather .start arguments

/-- The expressions that are evaluated, given the text of standard input. -/
def expressionsToEvaluate (request : Request) (stdin : String) : List String :=
  match request with
  | evaluate [] _ => (Session.ofString stdin).expressions
  | evaluate expressions _ => expressions
  | _ => []

/-- What is left of standard input when the request has been carried out. -/
def unread (request : Request) (stdin : String) : String :=
  match request with
  | evaluate [] _ => (Session.ofString stdin).unread
  | _ => stdin

end Request

end Reckoner
