import Reckoner.Parser.Basic

/-!
# Repetition

A repetition applies its parser again and again, each time where the last match stopped, until it
fails. It never fails itself. A parser that matches without moving is repeated for ever. One that
leaves the text and comes back may need any number of rounds before it fails, so no bound can be
read off the text: a repetition counts as endless after so many rounds that no computation gets
through them, and moving forward inside the text takes far fewer.
-/

namespace Reckoner

namespace Parser

variable {ω α : Type}

/-- The rounds that a repetition has beyond one for each character ahead. -/
def patience : Nat :=
  Nat.pow 2 62

/-- The loop of a repetition with the values and the notes so far, latest first. -/
def repeatFrom (p : Parser ω α) : Nat → Cursor → List α → List ω → Traced ω (Option (Parsed (List α)))
  | 0, _, _, noted => ⟨noted.reverse, .endless⟩
  | rounds + 1, c, values, noted =>
    match p.run c with
    | ⟨notes, .returned none⟩ =>
      ⟨(notes.reverseAux noted).reverse, .returned (some ⟨values.reverse, c⟩)⟩
    | ⟨notes, .returned (some next)⟩ =>
      repeatFrom p rounds next.rest (next.value :: values) (notes.reverseAux noted)
    | ⟨notes, .raised fault⟩ => ⟨(notes.reverseAux noted).reverse, .raised fault⟩
    | ⟨notes, .endless⟩ => ⟨(notes.reverseAux noted).reverse, .endless⟩

/-- Zero or more matches in a row. -/
def many (p : Parser ω α) : Parser ω (List α) :=
  ⟨fun c => p.repeatFrom (c.room + patience) c [] []⟩

/-- One or more matches in a row; it fails exactly if the first one does. -/
def many1 (p : Parser ω α) : Parser ω (List α) :=
  p.bind fun first => p.many.map (first :: ·)

end Parser

end Reckoner
