import Reckoner.CommandLine.Response

/-!
# The program

Standard input is read only if it is needed, and then line by line, so that each line is answered
before the next one is read.
-/

namespace Reckoner

def emit (response : Exit Response) : IO Nat := do
  match response with
  | .returned response =>
    IO.print response.stdout
    IO.eprint response.stderr
    return response.status
  | .raised fault =>
    IO.eprintln fault.message
    return 1
  | .endless => return 1

/-- Carries a session on until a line ends it or the stream does. -/
partial def converse (verbose : Bool) (stdin : IO.FS.Stream) (status : Nat) : IO Nat := do
  let line ← stdin.getLine
  if line.isEmpty then return status
  let session := Session.ofString line
  let status := max status (← emit (Response.ofExpressions verbose session.expressions))
  if session.ended then return status
  converse verbose stdin status

end Reckoner

def main (arguments : List String) : IO UInt32 := do
  let status ← match Reckoner.Request.ofArguments .inForce arguments with
    | .evaluate [] verbose => Reckoner.converse verbose (← IO.getStdin) 0
    | request => Reckoner.emit (Reckoner.Response.ofRequest request "")
  return status.toUInt32
