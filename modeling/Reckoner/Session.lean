import Reckoner.Text.Blank
import Reckoner.Text.Lines

/-!
# Sessions

A session takes expressions from a stream, one from each line. Lines are trimmed and blank ones
passed over, and a line that reads `quit`, in any letter case, ends the session; what comes after it
is left unread.
-/

namespace Reckoner

structure Session where
  expressions : List String
  unread : String
  /-- Whether the session was ended by a line and not by the end of the stream. -/
  ended : Bool
deriving DecidableEq, Repr

namespace Session

/-- No character but the ASCII letters has one of these four as its lower case. -/
def isQuit (line : List Char) : Bool :=
  line.map Char.toLower == "quit".toList

/-- The session on a stream with these lines. -/
def ofLines : List (List Char) → Session
  | [] => ⟨[], "", false⟩
  | line :: lines =>
    let expression := trim line
    if isQuit expression then ⟨[], String.ofList lines.flatten, true⟩
    else
      let session := ofLines lines
      if expression.isEmpty then session
      else { session with expressions := String.ofList expression :: session.expressions }

/-- The session on a stream with this text. -/
def ofString (stream : String) : Session :=
  ofLines (linesOf (uniformLineEnds stream.toList))

end Session

end Reckoner
