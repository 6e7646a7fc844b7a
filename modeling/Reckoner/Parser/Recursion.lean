import Reckoner.Parser.Basic

/-!
# Recursive rules

A recursive rule is given by what it is in terms of itself. It is unrolled as often as its uses can
lie inside one another when each starts further on than the one around it, and none after the end of
the text; a rule that nests more deeply is endless.
-/

namespace Reckoner

namespace Parser

variable {ω α : Type}

/-- The rule with at most the given number of applications inside one another. -/
def unroll (body : Parser ω α → Parser ω α) : Nat → Parser ω α
  | 0 => ⟨fun _ => .endless⟩
  | depth + 1 => ⟨fun c => (body (unroll body depth)).run c⟩

/-- The rule that is `body` of itself. -/
def recursive (body : Parser ω α → Parser ω α) : Parser ω α :=
  ⟨fun c => (unroll body (c.room + 1)).run c⟩

@[simp] theorem unroll_zero (body : Parser ω α → Parser ω α) :
    unroll body 0 = ⟨fun _ => .endless⟩ :=
  rfl

@[simp] theorem unroll_succ (body : Parser ω α → Parser ω α) (depth : Nat) :
    unroll body (depth + 1) = body (unroll body depth) :=
  rfl

end Parser

end Reckoner
