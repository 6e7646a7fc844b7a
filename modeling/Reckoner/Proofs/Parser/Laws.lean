import Mathlib
import Reckoner.Parser.Basic
import Reckoner.Proofs.Parser.Run

/-!
# The laws of sequence and choice

Parsers form a monad with an ordered choice. The laws are equations between parsers, so between the
runs at every cursor: the same result or the same fault, and the same notes in the same order. They
hold for all parsers and for all computations between them, also for those that note each of their
applications. So two parsers that a law makes equal apply the given ones at the same cursors and in
the same order: what follows a failure is not done, and what stands on the right of a match is not
tried.

Only distributing a sequence over the choice that follows it is no equation of this kind, since the
first parser is applied a second time before the second choice. The results are the same, and the
notes are if the first parser leaves none.
-/

namespace Reckoner

namespace Parser

variable {ω α β γ : Type}

/-- The second parser is chosen by a computation of its own, which is done after each match of the
first one. -/
def bindTraced (next : α → Traced ω (Parser ω β)) (p : Parser ω α) : Parser ω β :=
  p.bind fun value => .defer fun _ => next value

/-! ### Sequence -/

theorem unit_bind (value : α) (next : α → Parser ω β) : (unit value).bind next = next value :=
  rfl

theorem bind_unit (p : Parser ω α) : p.bind unit = p := by
  apply Parser.ext
  funext c
  calc (p.bind unit).run c
    _ = p.run c >>= pure := by
      apply Traced.bind_congr_of_returned
      intro result _
      cases result <;> rfl
    _ = p.run c := bind_pure _

theorem fail_bind (next : α → Parser ω β) : (fail : Parser ω α).bind next = fail :=
  rfl

theorem bind_bind (p : Parser ω α) (next : α → Parser ω β) (afterNext : β → Parser ω γ) :
    (p.bind next).bind afterNext = p.bind fun value => (next value).bind afterNext := by
  apply Parser.ext
  funext c
  simp only [Parser.bind, bind_assoc]
  apply Traced.bind_congr_of_returned
  intro result _
  cases result <;> rfl

theorem andThen_skip (p : Parser ω α) (q : Parser ω β) (r : Parser ω γ) :
    (p.andThen q).skip r = p.andThen (q.skip r) :=
  bind_bind p _ _

/-! ### Choosing the next parser by a computation -/

theorem defer_bind (look : Unit → Traced ω (Parser ω α)) (next : α → Parser ω β) :
    (defer look).bind next = defer fun _ => (do
      let p ← look ()
      pure (p.bind next)) := by
  apply Parser.ext
  funext c
  simp only [Parser.bind, defer, bind_assoc, pure_bind]

theorem bindTraced_bindTraced (p : Parser ω α) (next : α → Traced ω (Parser ω β))
    (afterNext : β → Traced ω (Parser ω γ)) :
    (p.bindTraced next).bindTraced afterNext = p.bindTraced fun value => (do
      let q ← next value
      pure (q.bindTraced afterNext)) := by
  simp only [bindTraced, bind_bind, defer_bind]

theorem mapTraced_eq_bindTraced (f : α → Traced ω β) (p : Parser ω α) :
    p.mapTraced f = p.bindTraced fun value => (do
      let mapped ← f value
      pure (unit mapped)) := by
  apply Parser.ext
  funext c
  apply Traced.bind_congr_of_returned
  intro result _
  cases result with
  | none => rfl
  | some first => simp only [defer, bind_assoc, pure_bind, unit]

theorem filterTraced_eq_bindTraced (test : α → Traced ω Bool) (p : Parser ω α) :
    p.filterTraced test = p.bindTraced fun value => (do
      let accepted ← test value
      pure (if accepted then unit value else fail)) := by
  apply Parser.ext
  funext c
  apply Traced.bind_congr_of_returned
  intro result _
  cases result with
  | none => rfl
  | some first =>
    simp only [defer, bind_assoc, pure_bind]
    apply Traced.bind_congr_of_returned
    intro accepted _
    cases accepted <;> rfl

/-! ### Choice -/

theorem fail_orElse (p : Parser ω α) : fail.orElse p = p :=
  rfl

theorem orElse_fail (p : Parser ω α) : p.orElse fail = p := by
  apply Parser.ext
  funext c
  calc (p.orElse fail).run c
    _ = p.run c >>= pure := by
      apply Traced.bind_congr_of_returned
      intro result _
      cases result <;> rfl
    _ = p.run c := bind_pure _

theorem unit_orElse (value : α) (p : Parser ω α) : (unit value).orElse p = unit value :=
  rfl

theorem orElse_assoc (p q r : Parser ω α) : (p.orElse q).orElse r = p.orElse (q.orElse r) := by
  apply Parser.ext
  funext c
  simp only [Parser.orElse, bind_assoc]
  apply Traced.bind_congr_of_returned
  intro result _
  cases result <;> rfl

/-- A value is transformed after the choice, so a fault that is raised then is not made good by the
other side. -/
theorem mapTraced_orElse (f : α → Traced ω β) (p q : Parser ω α) :
    (p.orElse q).mapTraced f = (p.mapTraced f).orElse (q.mapTraced f) := by
  apply Parser.ext
  funext c
  simp only [Parser.orElse, mapTraced, bind_assoc]
  apply Traced.bind_congr_of_returned
  intro result _
  cases result with
  | none => rfl
  | some first => simp only [pure_bind, bind_assoc]

/-! ### A sequence before a choice -/

/-- A parser tried again for the second choice, and the choice made after it once. The notes can
differ only by those that the parser leaves a second time. -/
theorem run_orElse_bind (p : Parser ω α) (next other : α → Parser ω β) (c : Cursor) :
    (((p.bind next).orElse (p.bind other)).run c).exit =
      ((p.bind fun value => (next value).orElse (other value)).run c).exit ∧
    ((p.run c).notes = [] → (((p.bind next).orElse (p.bind other)).run c).notes =
      ((p.bind fun value => (next value).orElse (other value)).run c).notes) := by
  rcases hfirst : p.run c with ⟨notes, (_ | first) | fault | _⟩
  · rw [run_orElse_of_none (run_bind_of_none hfirst) (run_bind_of_none hfirst), run_bind_of_none hfirst]
    exact ⟨rfl, fun hquiet => by simp [show notes = [] from hquiet]⟩
  · rcases hnext : (next first.value).run first.rest with ⟨more, (_ | second) | fault | _⟩
    · have hfailed : (p.bind next).run c = ⟨notes ++ more, .returned none⟩ := run_bind_of_some hfirst hnext
      have hother := run_orElse_of_none hnext (q := other first.value) rfl
      rw [run_orElse_of_none hfailed (run_bind_of_some hfirst rfl), run_bind_of_some hfirst hother]
      exact ⟨rfl, fun hquiet => by simp [show notes = [] from hquiet]⟩
    · have hmatched : (p.bind next).run c = ⟨notes ++ more, .returned (some second)⟩ := run_bind_of_some hfirst hnext
      rw [run_orElse_of_some hmatched, run_bind_of_some hfirst (run_orElse_of_some hnext)]
      exact ⟨rfl, fun _ => rfl⟩
    · have hraised : (p.bind next).run c = ⟨notes ++ more, .raised fault⟩ := run_bind_of_some hfirst hnext
      rw [run_orElse_of_raised hraised, run_bind_of_some hfirst (run_orElse_of_raised hnext)]
      exact ⟨rfl, fun _ => rfl⟩
    · simp [Parser.bind, Parser.orElse, hfirst, hnext]
  · have hraised {after : α → Parser ω β} : (p.bind after).run c = ⟨notes, .raised fault⟩ := run_bind_of_raised hfirst
    rw [run_orElse_of_raised hraised, hraised]
    exact ⟨rfl, fun _ => rfl⟩
  · simp [Parser.bind, Parser.orElse, hfirst]

/-- The laws of sequence and of ordered choice, with all that the parts do besides giving a result.
-/
theorem laws_of_sequence_and_choice :
    (∀ (value : α) (next : α → Traced ω (Parser ω β)), (unit value).bindTraced next = defer fun _ => next value) ∧
    (∀ p : Parser ω α, p.bind unit = p) ∧
    (∀ (p : Parser ω α) (next : α → Traced ω (Parser ω β)) (afterNext : β → Traced ω (Parser ω γ)),
      (p.bindTraced next).bindTraced afterNext =
        p.bindTraced fun value => (do let q ← next value; pure (q.bindTraced afterNext))) ∧
    (∀ (p : Parser ω α) (f : α → Traced ω β),
      p.mapTraced f = p.bindTraced fun value => (do let mapped ← f value; pure (unit mapped))) ∧
    (∀ (p : Parser ω α) (test : α → Traced ω Bool), p.filterTraced test =
      p.bindTraced fun value => (do let accepted ← test value; pure (if accepted then unit value else fail))) ∧
    (∀ next : α → Traced ω (Parser ω β), (fail : Parser ω α).bindTraced next = fail) ∧
    (∀ p : Parser ω α, fail.orElse p = p ∧ p.orElse fail = p) ∧
    (∀ p q r : Parser ω α, (p.orElse q).orElse r = p.orElse (q.orElse r)) ∧
    (∀ (value : α) (p : Parser ω α), (unit value).orElse p = unit value) ∧
    (∀ (p q : Parser ω α) (f : α → Traced ω β), (p.orElse q).mapTraced f = (p.mapTraced f).orElse (q.mapTraced f)) ∧
    (∀ (p : Parser ω α) (q : Parser ω β) (r : Parser ω γ), (p.andThen q).skip r = p.andThen (q.skip r)) ∧
    ∀ (p : Parser ω α) (next other : α → Parser ω β) (c : Cursor),
      ((p.bind fun value => (next value).orElse (other value)).run c).exit =
        (((p.bind next).orElse (p.bind other)).run c).exit := by
  refine ⟨?_, bind_unit, bindTraced_bindTraced, fun p f => mapTraced_eq_bindTraced f p,
    fun p test => filterTraced_eq_bindTraced test p, ?_, fun p => ⟨fail_orElse p, orElse_fail p⟩, orElse_assoc,
    unit_orElse, fun p q f => mapTraced_orElse f p q, andThen_skip, ?_⟩
  · exact fun value next => unit_bind value _
  · exact fun next => fail_bind _
  · exact fun p next other c => (run_orElse_bind p next other c).1.symm

end Parser

end Reckoner
