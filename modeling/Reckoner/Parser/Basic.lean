import Reckoner.Traced
import Reckoner.Text.Cursor

/-!
# Parsers

A parser looks at a cursor and either does not match or gives a value and the cursor where it
stopped. It may leave notes and may break off, and the combinators say in which order the parts are
applied: a part that is not reached leaves no notes. A failed match carries nothing, and the caller
still holds the cursor it started from; this is all that going back takes.
-/

namespace Reckoner

@[ext] structure Parsed (α : Type) where
  value : α
  rest : Cursor
deriving DecidableEq, Repr

@[ext] structure Parser (ω α : Type) where
  run : Cursor → Traced ω (Option (Parsed α))

namespace Parser

variable {ω α β : Type}

def unit (value : α) : Parser ω α :=
  ⟨fun c => pure (some ⟨value, c⟩)⟩

def fail : Parser ω α :=
  ⟨fun _ => pure none⟩

instance : Inhabited (Parser ω α) :=
  ⟨fail⟩

/-- A computation that reads nothing, as a parser that always matches. -/
def lift (computation : Traced ω α) : Parser ω α :=
  ⟨fun c => do
    let value ← computation
    pure (some ⟨value, c⟩)⟩

/-- The second parser depends on the value of the first, and is not asked for if the first fails. -/
def bind (p : Parser ω α) (next : α → Parser ω β) : Parser ω β :=
  ⟨fun c => do
    match ← p.run c with
    | none => pure none
    | some first => (next first.value).run first.rest⟩

/-- The value is transformed by a computation of its own, which is done only after a match. -/
def mapTraced (f : α → Traced ω β) (p : Parser ω α) : Parser ω β :=
  ⟨fun c => do
    match ← p.run c with
    | none => pure none
    | some first =>
      let value ← f first.value
      pure (some ⟨value, first.rest⟩)⟩

def map (f : α → β) (p : Parser ω α) : Parser ω β :=
  p.mapTraced fun value => pure (f value)

/-- A match is kept only if the test, which may leave notes or break off, accepts its value. -/
def filterTraced (test : α → Traced ω Bool) (p : Parser ω α) : Parser ω α :=
  ⟨fun c => do
    match ← p.run c with
    | none => pure none
    | some first =>
      let accepted ← test first.value
      pure (if accepted then some first else none)⟩

def filter (test : α → Bool) (p : Parser ω α) : Parser ω α :=
  p.filterTraced fun value => pure (test value)

/-- Ordered choice: the second parser is applied, at the same cursor, only if the first one fails.
-/
def orElse (p q : Parser ω α) : Parser ω α :=
  ⟨fun c => do
    match ← p.run c with
    | none => q.run c
    | some first => pure (some first)⟩

/-- Sequence, keeping the value on the right. -/
def andThen (p : Parser ω α) (q : Parser ω β) : Parser ω β :=
  p.bind fun _ => q

/-- Sequence, keeping the value on the left. -/
def skip (p : Parser ω α) (q : Parser ω β) : Parser ω α :=
  p.bind fun value => q.map fun _ => value

/-- The parser is looked up on every use, so that a rule can name one that is given later. -/
def defer (look : Unit → Traced ω (Parser ω α)) : Parser ω α :=
  ⟨fun c => do
    let p ← look ()
    p.run c⟩

/-- Notes something about the cursor that the parser is applied to, and then applies it. -/
def watched (observe : Cursor → ω) (p : Parser ω α) : Parser ω α :=
  ⟨fun c => do
    Traced.note (observe c)
    p.run c⟩

/-- One character. Only a cursor before the beginning of its text is neither at the end nor at a
character, and there a fault is raised. -/
def anyChar : Parser ω Char :=
  ⟨fun c =>
    if c.atEnd then pure none
    else match c.head? with
      | none => .raise .outOfRange
      | some character => pure (some ⟨character, c.advance 1⟩)⟩

def satisfy (test : Char → Bool) : Parser ω Char :=
  anyChar.filter test

/-- The character that the text consists of; a text of any other length matches nowhere. -/
def char (expected : String) : Parser ω Char :=
  satisfy fun character => expected == String.singleton character

/-- The next `count` characters, whatever they are, moving by `count`. A negative count moves back,
and leaves so many characters out at the end of the text. -/
def take (count : Int) : Parser ω String :=
  ⟨fun c =>
    let start := c.position.toNat
    let stop := if count < 0 then c.text.size - count.natAbs else start + count.toNat
    pure (some ⟨String.ofList (c.text.extract start stop).toList, c.advance count⟩)⟩

end Parser

end Reckoner
