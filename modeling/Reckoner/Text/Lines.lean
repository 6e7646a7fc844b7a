/-!
# Lines

A stream of text is read line by line. Line ends are first made uniform, so that only `'\n'` ends a
line; a line keeps its end, and the last line may have none, so the lines put together are the text
again.
-/

namespace Reckoner

/-- Turns `"\r\n"` and `'\r'` alone into `'\n'`. -/
def uniformLineEnds : List Char → List Char
  | [] => []
  | '\r' :: '\n' :: text => '\n' :: uniformLineEnds text
  | '\r' :: text => '\n' :: uniformLineEnds text
  | c :: text => c :: uniformLineEnds text

/-- The lines of a text, each with its line end. -/
def linesOf : List Char → List (List Char)
  | [] => []
  | c :: text =>
    if c = '\n' then [c] :: linesOf text
    else match linesOf text with
      | [] => [[c]]
      | line :: lines => (c :: line) :: lines

theorem flatten_linesOf (text : List Char) : (linesOf text).flatten = text := by
  induction text with
  | nil => rfl
  | cons c text ih =>
    simp only [linesOf]
    split
    · simp [ih]
    · split
      · rename_i heq
        rw [heq] at ih
        simp [← ih]
      · rename_i heq
        rw [heq] at ih
        simp [← ih]

end Reckoner
