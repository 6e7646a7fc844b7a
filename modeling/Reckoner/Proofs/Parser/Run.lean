import Mathlib
import Reckoner.Parser.Recursion

/-!
# Runs that return

What a combinator does once it is known what its first part does at a cursor. A part that does not
match ends a sequence and sends a choice to its other side; the notes of the parts stand in the
order in which the parts are applied.
-/

namespace Reckoner

namespace Parser

variable {ω α β : Type} {p : Parser ω α} {c : Cursor} {notes : List ω}

theorem run_unit (value : α) (c : Cursor) : (unit value : Parser ω α).run c = ⟨[], .returned (some ⟨value, c⟩)⟩ :=
  rfl

theorem run_bind_of_none {next : α → Parser ω β} (h : p.run c = ⟨notes, .returned none⟩) :
    (p.bind next).run c = ⟨notes, .returned none⟩ := by
  simp [Parser.bind, h, Traced.pure_def]

theorem run_bind_of_some {next : α → Parser ω β} {first : Parsed α} {second : Traced ω (Option (Parsed β))}
    (h : p.run c = ⟨notes, .returned (some first)⟩) (hnext : (next first.value).run first.rest = second) :
    (p.bind next).run c = ⟨notes ++ second.notes, second.exit⟩ := by
  simp [Parser.bind, h, hnext]

theorem run_map_of_returned {result : Option (Parsed α)} (f : α → β) (h : p.run c = ⟨notes, .returned result⟩) :
    (p.map f).run c = ⟨notes, .returned (result.map fun first => ⟨f first.value, first.rest⟩)⟩ := by
  cases result <;> simp [Parser.map, mapTraced, h, Traced.pure_def]

theorem run_orElse_of_none {q : Parser ω α} {other : Traced ω (Option (Parsed α))}
    (h : p.run c = ⟨notes, .returned none⟩) (hother : q.run c = other) :
    (p.orElse q).run c = ⟨notes ++ other.notes, other.exit⟩ := by
  simp [Parser.orElse, h, hother]

theorem run_orElse_of_some {q : Parser ω α} {first : Parsed α} (h : p.run c = ⟨notes, .returned (some first)⟩) :
    (p.orElse q).run c = ⟨notes, .returned (some first)⟩ := by
  simp [Parser.orElse, h, Traced.pure_def]

theorem run_andThen_of_none {q : Parser ω β} (h : p.run c = ⟨notes, .returned none⟩) :
    (p.andThen q).run c = ⟨notes, .returned none⟩ :=
  run_bind_of_none h

theorem run_andThen_of_some {q : Parser ω β} {first : Parsed α} {second : Traced ω (Option (Parsed β))}
    (h : p.run c = ⟨notes, .returned (some first)⟩) (hsecond : q.run first.rest = second) :
    (p.andThen q).run c = ⟨notes ++ second.notes, second.exit⟩ :=
  run_bind_of_some h hsecond

theorem run_skip_of_none {q : Parser ω β} (h : p.run c = ⟨notes, .returned none⟩) :
    (p.skip q).run c = ⟨notes, .returned none⟩ :=
  run_bind_of_none h

theorem run_skip_of_some {q : Parser ω β} {first : Parsed α} {more : List ω} {result : Option (Parsed β)}
    (h : p.run c = ⟨notes, .returned (some first)⟩) (hresult : q.run first.rest = ⟨more, .returned result⟩) :
    (p.skip q).run c = ⟨notes ++ more, .returned (result.map fun second => ⟨first.value, second.rest⟩)⟩ := by
  have hmap := run_map_of_returned (fun _ => first.value) hresult
  rw [skip, run_bind_of_some h rfl, hmap]

/-! ### Transforming and testing as continuations -/

theorem map_eq_bind (f : α → β) (p : Parser ω α) : p.map f = p.bind fun value => unit (f value) :=
  rfl

theorem filter_eq_bind (test : α → Bool) (p : Parser ω α) :
    p.filter test = p.bind fun value => if test value then unit value else fail := by
  apply Parser.ext
  funext c
  apply Traced.bind_congr_of_returned
  intro result _
  cases result with
  | none => rfl
  | some first => by_cases htest : test first.value = true <;> simp [htest, unit, fail]

/-! ### Parts that break off -/

theorem run_bind_of_raised {next : α → Parser ω β} {fault : Fault} (h : p.run c = ⟨notes, .raised fault⟩) :
    (p.bind next).run c = ⟨notes, .raised fault⟩ := by
  simp [Parser.bind, h]

theorem run_map_of_raised {fault : Fault} (f : α → β) (h : p.run c = ⟨notes, .raised fault⟩) :
    (p.map f).run c = ⟨notes, .raised fault⟩ := by
  simp [Parser.map, mapTraced, h]

theorem run_filter_of_raised {fault : Fault} (test : α → Bool) (h : p.run c = ⟨notes, .raised fault⟩) :
    (p.filter test).run c = ⟨notes, .raised fault⟩ := by
  simp [Parser.filter, filterTraced, h]

theorem run_orElse_of_raised {q : Parser ω α} {fault : Fault} (h : p.run c = ⟨notes, .raised fault⟩) :
    (p.orElse q).run c = ⟨notes, .raised fault⟩ := by
  simp [Parser.orElse, h]

/-! ### Recursive rules -/

theorem run_recursive (body : Parser ω α → Parser ω α) (c : Cursor) :
    (recursive body).run c = (body (unroll body c.room)).run c :=
  rfl

/-- What holds of a rule wherever it holds of the rule's uses further on, holds of the rule. -/
theorem recursive_induction {body : Parser ω α → Parser ω α} {P : Cursor → Traced ω (Option (Parsed α)) → Prop}
    (step : ∀ p c, (∀ c' : Cursor, c'.room < c.room → P c' (p.run c')) → P c ((body p).run c)) (c : Cursor) :
    P c ((recursive body).run c) := by
  have hunroll : ∀ depth c, c.room < depth → P c ((unroll body depth).run c) := by
    intro depth
    induction depth with
    | zero => intro c hroom; omega
    | succ depth ih =>
      intro c hroom
      rw [unroll_succ]
      exact step _ c fun c' hcloser => ih c' (by omega)
  exact hunroll (c.room + 1) c (Nat.lt_succ_self c.room)

end Parser

end Reckoner
