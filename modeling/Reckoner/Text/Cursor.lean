/-!
# Cursors

A cursor is a text together with an offset into it. The offset may be any integer: at the length or
past it a cursor is at the end, and a negative offset counts from the end of the text. Moving a
cursor makes a new one, so whoever still holds the old one can start again from there.
-/

namespace Reckoner

structure Cursor where
  text : Array Char
  offset : Int
deriving DecidableEq, Repr

namespace Cursor

def ofString (text : String) : Cursor :=
  ⟨text.toList.toArray, 0⟩

def atEnd (c : Cursor) : Bool :=
  decide ((c.text.size : Int) ≤ c.offset)

/-- The offset counted from the beginning, which is still negative if it lies before the beginning.
-/
def position (c : Cursor) : Int :=
  if c.offset < 0 then c.offset + c.text.size else c.offset

def head? (c : Cursor) : Option Char :=
  if c.position < 0 then none else c.text[c.position.toNat]?

/-- The text from the cursor on; an offset before the beginning gives the whole text. -/
def rest (c : Cursor) : String :=
  String.ofList (c.text.toList.drop c.position.toNat)

def advance (c : Cursor) (count : Int) : Cursor :=
  { c with offset := c.offset + count }

/-- The characters that reading forward from the cursor meets. From a negative offset it meets those
up to the end of the text and then, at offset zero, the whole text. -/
def ahead (c : Cursor) : List Char :=
  if c.offset < 0 then c.text.toList.drop c.position.toNat ++ c.text.toList
  else c.text.toList.drop c.offset.toNat

/-- The number of characters from the cursor to the end of the text, counted over the whole text
once more from a negative offset. -/
def room (c : Cursor) : Nat :=
  (c.text.size - c.offset).toNat

@[simp] theorem text_advance (c : Cursor) (count : Int) : (c.advance count).text = c.text :=
  rfl

@[simp] theorem offset_advance (c : Cursor) (count : Int) :
    (c.advance count).offset = c.offset + count :=
  rfl

@[simp] theorem advance_advance (c : Cursor) (first second : Int) :
    (c.advance first).advance second = c.advance (first + second) := by
  simp [advance, Int.add_assoc]

end Cursor

end Reckoner
