/-!
# Magnitudes

The absolute values that a double can have, in increasing order: zero, the subnormal ones, the
normal ones and infinity. A magnitude is its place in this order, its rank. Finite magnitudes are
whole multiples of the smallest positive one, 2 ^ -1074, and are measured in this unit; the gap
between neighbours is one unit up to rank 2 ^ 53 and doubles every 2 ^ 52 ranks after that. Rounding
takes the nearer neighbour, and the one of even rank at equal distance; infinity takes the place
that would come next, so it is reached by the same rule.
-/

namespace Reckoner

/-- The number of ranks over which the gap between neighbours stays the same. -/
def Magnitude.span : Nat :=
  Nat.pow 2 52

def Magnitude.infinityRank : Nat :=
  2047 * Magnitude.span

structure Magnitude where
  rank : Nat
  rank_le : rank ≤ Magnitude.infinityRank
deriving DecidableEq

namespace Magnitude

@[ext] theorem ext {m n : Magnitude} (h : m.rank = n.rank) : m = n := by
  cases m
  cases n
  simp_all

/-- The units in one whole. -/
def scale : Nat :=
  Nat.pow 2 1074

/-- The units that the magnitude of a rank has, continued beyond the finite ones. -/
def unitsAt (rank : Nat) : Nat :=
  let doublings := rank / span - 1
  (rank - doublings * span) * Nat.pow 2 doublings

/-- The last rank that has no more than the given units. -/
def rankBelow (units : Nat) : Nat :=
  let doublings := units.log2 - 52
  doublings * span + units / Nat.pow 2 doublings

/-- The rank nearest to a quotient of units, and the even one at equal distance. -/
def nearestRank (numerator denominator : Nat) : Nat :=
  let below := rankBelow (numerator / denominator)
  let middle := (unitsAt below + unitsAt (below + 1)) * denominator
  if 2 * numerator < middle then below
  else if middle < 2 * numerator then below + 1
  else below + below % 2

/-- The magnitude nearest to a quotient of units. -/
def nearest (numerator denominator : Nat) : Magnitude :=
  ⟨min (nearestRank numerator denominator) infinityRank, Nat.min_le_right _ _⟩

def zero : Magnitude :=
  ⟨0, Nat.zero_le _⟩

def infinity : Magnitude :=
  ⟨infinityRank, Nat.le_refl _⟩

def isZero (m : Magnitude) : Bool :=
  m.rank == 0

def isInfinite (m : Magnitude) : Bool :=
  m.rank == infinityRank

/-- The units of a finite magnitude. -/
def units (m : Magnitude) : Nat :=
  unitsAt m.rank

end Magnitude

end Reckoner
