import Mathlib
import Reckoner.Parser.Recursion
import Reckoner.Proofs.Parser.Run

/-!
# What a run owes to its parts

A match of a composed parser is made of matches of its parts, and its notes are notes of its parts,
each at the cursor where the part before it has stopped. This is what is known about a part without
knowing its run: whatever holds of all matches or all notes of the parts can be followed through.
-/

namespace Reckoner

namespace Traced

variable {ω α β : Type}

theorem exit_bind_eq_returned_iff {first : Traced ω α} {next : α → Traced ω β} {result : β} :
    (first >>= next).exit = .returned result ↔
      ∃ value, first.exit = .returned value ∧ (next value).exit = .returned result := by
  rw [exit_bind]
  cases first.exit <;> simp

theorem mem_notes_bind {first : Traced ω α} {next : α → Traced ω β} {note : ω} :
    note ∈ (first >>= next).notes ↔
      note ∈ first.notes ∨ ∃ value, first.exit = .returned value ∧ note ∈ (next value).notes := by
  rcases first with ⟨notes, value | fault | _⟩ <;> simp

end Traced

namespace Parser

variable {ω α β : Type}

/-- Applied at the cursor, the parser gives this value and stops there. -/
def Matches (p : Parser ω α) (c : Cursor) (found : Parsed α) : Prop :=
  (p.run c).exit = .returned (some found)

variable {p q : Parser ω α} {c : Cursor}

/-! ### Matches -/

theorem matches_bind_iff {next : α → Parser ω β} {found : Parsed β} : (p.bind next).Matches c found ↔
    ∃ first, p.Matches c first ∧ (next first.value).Matches first.rest found := by
  unfold Matches
  rw [Parser.bind, Traced.exit_bind_eq_returned_iff]
  constructor
  · rintro ⟨_ | first, hfirst, hfound⟩
    · simp at hfound
    · exact ⟨first, hfirst, hfound⟩
  · rintro ⟨first, hfirst, hfound⟩
    exact ⟨some first, hfirst, hfound⟩

theorem Matches.of_orElse {found : Parsed α} (h : (p.orElse q).Matches c found) :
    p.Matches c found ∨ q.Matches c found := by
  obtain ⟨_ | first, hfirst, hfound⟩ := Traced.exit_bind_eq_returned_iff.mp h
  · exact .inr hfound
  · simp only [Traced.exit_pure, Exit.returned.injEq, Option.some.injEq] at hfound
    exact .inl (hfound ▸ hfirst)

theorem Matches.of_defer {look : Unit → Traced ω (Parser ω α)} {found : Parsed α} (h : (defer look).Matches c found) :
    ∃ p, (look ()).exit = .returned p ∧ p.Matches c found :=
  Traced.exit_bind_eq_returned_iff.mp h

theorem matches_watched_iff {observe : Cursor → ω} {found : Parsed α} :
    (p.watched observe).Matches c found ↔ p.Matches c found := by
  rw [Matches, Matches, watched, Traced.exit_bind]
  rfl

/-! ### Notes -/

theorem mem_notes_of_bind {next : α → Parser ω β} {note : ω} (h : note ∈ ((p.bind next).run c).notes) :
    note ∈ (p.run c).notes ∨ ∃ first, p.Matches c first ∧ note ∈ ((next first.value).run first.rest).notes := by
  obtain hfirst | ⟨_ | first, hfirst, hnote⟩ := Traced.mem_notes_bind.mp h
  · exact .inl hfirst
  · simp at hnote
  · exact .inr ⟨first, hfirst, hnote⟩

theorem mem_notes_of_map {f : α → β} {note : ω} (h : note ∈ ((p.map f).run c).notes) : note ∈ (p.run c).notes := by
  rw [map_eq_bind] at h
  obtain hnote | ⟨_, -, hunit⟩ := mem_notes_of_bind h
  · exact hnote
  · simp [run_unit] at hunit

theorem mem_notes_of_orElse {note : ω} (h : note ∈ ((p.orElse q).run c).notes) :
    note ∈ (p.run c).notes ∨ note ∈ (q.run c).notes := by
  obtain hfirst | ⟨_ | first, -, hnote⟩ := Traced.mem_notes_bind.mp h
  · exact .inl hfirst
  · exact .inr hnote
  · simp at hnote

/-! ### Recursive rules -/

/-- What holds of the endless parser, and of the body of a rule whenever it holds of the rule's uses,
holds of the rule however often it is unrolled. -/
theorem unroll_induction {body : Parser ω α → Parser ω α} {P : Parser ω α → Prop} (hendless : P ⟨fun _ => .endless⟩)
    (hbody : ∀ p, P p → P (body p)) (depth : Nat) : P (unroll body depth) := by
  induction depth with
  | zero => exact hendless
  | succ depth ih => exact hbody _ ih

end Parser

end Reckoner
