import Reckoner.Fault

/-!
# Traced computations

A traced computation leaves notes, in order, and ends in one of three ways: it returns a value, it
raises a fault, or it goes on for ever. What follows a computation happens only if that computation
returns, so the notes of one that breaks off are those up to that point. Both types are lawful
monads, and the equations below are all that is used about them elsewhere.
-/

namespace Reckoner

inductive Exit (α : Type)
  | returned (value : α)
  | raised (fault : Fault)
  | endless
deriving DecidableEq, Repr

namespace Exit

protected def bind {α β : Type} (exit : Exit α) (next : α → Exit β) : Exit β :=
  match exit with
  | returned value => next value
  | raised fault => raised fault
  | endless => endless

instance : Monad Exit where
  pure := returned
  bind := Exit.bind

@[simp] theorem pure_eq_returned {α : Type} (value : α) : (pure value : Exit α) = returned value :=
  rfl

@[simp] theorem returned_bind {α β : Type} (value : α) (next : α → Exit β) :
    (returned value >>= next) = next value :=
  rfl

@[simp] theorem raised_bind {α β : Type} (fault : Fault) (next : α → Exit β) :
    (raised fault >>= next) = raised fault :=
  rfl

@[simp] theorem endless_bind {α β : Type} (next : α → Exit β) : (endless >>= next) = endless :=
  rfl

instance : LawfulMonad Exit := LawfulMonad.mk' Exit
  (fun exit => by cases exit <;> rfl)
  (fun _ _ => rfl)
  (fun exit _ _ => by cases exit <;> rfl)

def ofExcept {α : Type} : Except Fault α → Exit α
  | .ok value => returned value
  | .error fault => raised fault

end Exit

@[ext] structure Traced (ω α : Type) where
  notes : List ω
  exit : Exit α
deriving DecidableEq, Repr

namespace Traced

variable {ω α β : Type}

/-- The second computation is run, and its notes are added, only if the first one returns. -/
protected def bind (first : Traced ω α) (next : α → Traced ω β) : Traced ω β :=
  match first with
  | ⟨notes, .returned value⟩ =>
    let second := next value
    ⟨notes ++ second.notes, second.exit⟩
  | ⟨notes, .raised fault⟩ => ⟨notes, .raised fault⟩
  | ⟨notes, .endless⟩ => ⟨notes, .endless⟩

instance : Monad (Traced ω) where
  pure value := ⟨[], .returned value⟩
  bind := Traced.bind

def note (event : ω) : Traced ω Unit :=
  ⟨[event], .returned ()⟩

def raise (fault : Fault) : Traced ω α :=
  ⟨[], .raised fault⟩

def endless : Traced ω α :=
  ⟨[], .endless⟩

def ofExcept (answer : Except Fault α) : Traced ω α :=
  ⟨[], .ofExcept answer⟩

theorem pure_def (value : α) : (pure value : Traced ω α) = ⟨[], .returned value⟩ :=
  rfl

@[simp] theorem notes_pure (value : α) : (pure value : Traced ω α).notes = [] :=
  rfl

@[simp] theorem exit_pure (value : α) : (pure value : Traced ω α).exit = .returned value :=
  rfl

@[simp] theorem returned_bind (notes : List ω) (value : α) (next : α → Traced ω β) :
    ((⟨notes, .returned value⟩ : Traced ω α) >>= next)
      = ⟨notes ++ (next value).notes, (next value).exit⟩ :=
  rfl

@[simp] theorem raised_bind (notes : List ω) (fault : Fault) (next : α → Traced ω β) :
    ((⟨notes, .raised fault⟩ : Traced ω α) >>= next) = ⟨notes, .raised fault⟩ :=
  rfl

@[simp] theorem endless_bind (notes : List ω) (next : α → Traced ω β) :
    ((⟨notes, .endless⟩ : Traced ω α) >>= next) = ⟨notes, .endless⟩ :=
  rfl

theorem exit_bind (first : Traced ω α) (next : α → Traced ω β) :
    (first >>= next).exit = first.exit >>= fun value => (next value).exit := by
  obtain ⟨notes, exit⟩ := first
  cases exit <;> rfl

/-- What follows a computation matters only for the values that it returns. -/
theorem bind_congr_of_returned {first : Traced ω α} {next other : α → Traced ω β}
    (h : ∀ value, first.exit = .returned value → next value = other value) :
    (first >>= next) = (first >>= other) := by
  obtain ⟨notes, value | fault | _⟩ := first
  · rw [returned_bind, returned_bind, h value rfl]
  · rfl
  · rfl

instance : LawfulMonad (Traced ω) := LawfulMonad.mk' (Traced ω)
  (fun computation => by
    obtain ⟨notes, exit⟩ := computation
    cases exit <;> simp [Functor.map, Traced.bind])
  (fun _ _ => by simp [pure_def])
  (fun computation next afterNext => by
    obtain ⟨notes, exit⟩ := computation
    cases exit with
    | raised fault => simp
    | endless => simp
    | returned value =>
      simp only [returned_bind]
      generalize next value = second
      obtain ⟨_, exit⟩ := second
      cases exit <;> simp)

end Traced

end Reckoner
