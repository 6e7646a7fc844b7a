import Mathlib
import Reckoner.Parser.Repeat

/-!
# Repetition by its first round

The loop of a repetition carries what it has read so far and a count of the rounds it still has.
Neither can be seen from outside if every match moves forward inside the text: then a repetition is
one match and a repetition after it, or nothing if there is no match.
-/

namespace Reckoner

namespace Parser

variable {ω α : Type}

/-- Every match ends further on in the same text, and not past its end. -/
def Advances (p : Parser ω α) : Prop :=
  ∀ c next, (p.run c).exit = .returned (some next) →
    next.rest.text = c.text ∧ c.offset < next.rest.offset ∧ next.rest.offset ≤ c.text.size

theorem Advances.room_lt {p : Parser ω α} (h : p.Advances) {c : Cursor} {next : Parsed α}
    (hmatch : (p.run c).exit = .returned (some next)) : next.rest.room < c.room := by
  obtain ⟨htext, hforward, hinside⟩ := h c next hmatch
  unfold Cursor.room
  rw [htext]
  omega

/-- What the loop has gathered before a round stands before what it gathers from there on. -/
theorem repeatFrom_eq (p : Parser ω α) (rounds : Nat) (c : Cursor) (values : List α) (noted : List ω) :
    p.repeatFrom rounds c values noted =
      ⟨noted.reverse ++ (p.repeatFrom rounds c [] []).notes,
        (p.repeatFrom rounds c [] []).exit >>= fun result =>
          .returned (result.map fun parsed => ⟨values.reverse ++ parsed.value, parsed.rest⟩)⟩ := by
  induction rounds generalizing c values noted with
  | zero => simp [repeatFrom]
  | succ rounds ih =>
    simp only [repeatFrom]
    split
    · simp
    · rename_i notes next _
      rw [ih next.rest (next.value :: values), ih next.rest [next.value]]
      simp [Function.comp_def]
    · simp
    · simp

/-- A round is one match, and the rounds after it go on from there. -/
theorem repeatFrom_succ (p : Parser ω α) (rounds : Nat) (c : Cursor) :
    p.repeatFrom (rounds + 1) c [] [] = (do
      match ← p.run c with
      | none => pure (some ⟨[], c⟩)
      | some first =>
        match ← p.repeatFrom rounds first.rest [] [] with
        | none => pure none
        | some more => pure (some ⟨first.value :: more.value, more.rest⟩)) := by
  rw [repeatFrom]
  rcases p.run c with ⟨notes, (_ | next) | fault | _⟩
  · simp [Traced.pure_def]
  · simp only [Traced.returned_bind]
    rw [repeatFrom_eq]
    rcases p.repeatFrom rounds next.rest [] [] with ⟨more, (_ | parsed) | fault | _⟩ <;> simp [Traced.pure_def]
  · simp
  · simp

/-- Rounds beyond one for each character ahead are never used. -/
theorem Advances.repeatFrom_rounds {p : Parser ω α} (h : p.Advances) {rounds enough : Nat} {c : Cursor}
    (hrounds : c.room < rounds) (henough : c.room < enough) :
    p.repeatFrom rounds c [] [] = p.repeatFrom enough c [] [] := by
  induction rounds generalizing c enough with
  | zero => omega
  | succ rounds ih =>
    obtain ⟨enough, rfl⟩ : ∃ n, enough = n + 1 := ⟨enough - 1, by omega⟩
    rw [repeatFrom_succ, repeatFrom_succ]
    apply Traced.bind_congr_of_returned
    intro result hresult
    cases result with
    | none => rfl
    | some next =>
      have hroom := h.room_lt hresult
      dsimp only
      rw [ih (by omega) (by omega : next.rest.room < enough)]

theorem patience_pos : 0 < patience :=
  Nat.two_pow_pos 62

theorem many_run (p : Parser ω α) (c : Cursor) :
    p.many.run c = p.repeatFrom (c.room + patience) c [] [] := by
  rw [many]

/-- A repetition that moves forward is one match and a repetition from there, or nothing. -/
theorem Advances.run_many {p : Parser ω α} (h : p.Advances) (c : Cursor) :
    p.many.run c = (do
      match ← p.run c with
      | none => pure (some ⟨[], c⟩)
      | some first =>
        match ← p.many.run first.rest with
        | none => pure none
        | some more => pure (some ⟨first.value :: more.value, more.rest⟩)) := by
  have hrounds := Nat.lt_add_of_pos_right (n := c.room) patience_pos
  rw [many_run, h.repeatFrom_rounds hrounds (Nat.lt_succ_self c.room), repeatFrom_succ]
  apply Traced.bind_congr_of_returned
  intro result hresult
  cases result with
  | none => dsimp only
  | some next =>
    have hroom := h.room_lt hresult
    have hrest := Nat.lt_add_of_pos_right (n := next.rest.room) patience_pos
    dsimp only
    rw [many_run, h.repeatFrom_rounds hroom hrest]

end Parser

end Reckoner
