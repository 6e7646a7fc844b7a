import Mathlib
import Reckoner.Proofs.Double.Rounding

/-!
# The nearest magnitude

Rounding an exact value gives the magnitude that is nearer to it than every other one, or as near
and even; there is only one such magnitude. Infinity takes part with the value that would come after
the greatest finite one. The exact value lies between two neighbours in the increasing sequence of
units, and every other member of the sequence is farther away than the nearer of the two.
-/

namespace Reckoner

/-! ### The nearer one of two numbers

Their middle tells which one it is.
-/

theorem abs_sub_le_abs_sub_iff_of_lt {a b : ℚ} (h : a < b) (x : ℚ) : |x - a| ≤ |x - b| ↔ 2 * x ≤ a + b := by
  have hdifference : (x - b) ^ 2 - (x - a) ^ 2 = (b - a) * (a + b - 2 * x) := by ring
  rw [← sq_le_sq, ← sub_nonneg, hdifference, mul_nonneg_iff_of_pos_left (sub_pos.mpr h), sub_nonneg]

theorem abs_sub_le_abs_sub_iff_of_gt {a b : ℚ} (h : a < b) (x : ℚ) : |x - b| ≤ |x - a| ↔ a + b ≤ 2 * x := by
  have hdifference : (x - a) ^ 2 - (x - b) ^ 2 = (b - a) * (2 * x - (a + b)) := by ring
  rw [← sq_le_sq, ← sub_nonneg, hdifference, mul_nonneg_iff_of_pos_left (sub_pos.mpr h), sub_nonneg]

theorem abs_sub_lt_abs_sub_iff_of_lt {a b : ℚ} (h : a < b) (x : ℚ) : |x - a| < |x - b| ↔ 2 * x < a + b := by
  rw [← not_le, abs_sub_le_abs_sub_iff_of_gt h, not_le]

theorem abs_sub_lt_abs_sub_iff_of_gt {a b : ℚ} (h : a < b) (x : ℚ) : |x - b| < |x - a| ↔ a + b < 2 * x := by
  rw [← not_le, abs_sub_le_abs_sub_iff_of_lt h, not_le]

/-! ### Neighbours in an increasing sequence -/

section

variable {u : Nat → ℚ} {x : ℚ} {below : Nat}

/-- The member that is not the nearer one of two neighbours around `x` is farther away. -/
theorem lt_of_nearer_below (hu : StrictMono u) (hbelow : u below ≤ x) (hnearer : 2 * x < u below + u (below + 1))
    {other : Nat} (h : other ≠ below) : |x - u below| < |x - u other| := by
  obtain hless | hmore := Nat.lt_or_gt_of_ne h
  · have hother : u other < u below := hu hless
    exact (abs_sub_lt_abs_sub_iff_of_gt hother x).mpr (by linarith)
  · have hother : u (below + 1) ≤ u other := hu.monotone hmore
    exact (abs_sub_lt_abs_sub_iff_of_lt (hu hmore) x).mpr (by linarith)

theorem lt_of_nearer_above (hu : StrictMono u) (habove : x < u (below + 1)) (hnearer : u below + u (below + 1) < 2 * x)
    {other : Nat} (h : other ≠ below + 1) : |x - u (below + 1)| < |x - u other| := by
  obtain hless | hmore := Nat.lt_or_gt_of_ne h
  · have hother : u other ≤ u below := hu.monotone (Nat.le_of_lt_succ hless)
    exact (abs_sub_lt_abs_sub_iff_of_gt (hu hless) x).mpr (by linarith)
  · have hother : u (below + 1) < u other := hu hmore
    exact (abs_sub_lt_abs_sub_iff_of_lt hother x).mpr (by linarith)

/-- At equal distance both neighbours are nearer than every other member. -/
theorem le_of_middle (hu : StrictMono u) (hmiddle : 2 * x = u below + u (below + 1)) {nearest : Nat}
    (hnearest : nearest = below ∨ nearest = below + 1) {other : Nat} (h : other ≠ nearest) :
    |x - u nearest| ≤ |x - u other| := by
  have hleast : u below ≤ u nearest := hu.monotone (by omega)
  have hgreatest : u nearest ≤ u (below + 1) := hu.monotone (by omega)
  obtain hless | hmore := Nat.lt_or_gt_of_ne h
  · have hother : u other ≤ u below := hu.monotone (by omega)
    exact (abs_sub_le_abs_sub_iff_of_gt (hu hless) x).mpr (by linarith)
  · have hother : u (below + 1) ≤ u other := hu.monotone (by omega)
    exact (abs_sub_le_abs_sub_iff_of_lt (hu hmore) x).mpr (by linarith)

end

namespace Magnitude

/-! ### The place of a quotient in the sequence of units -/

theorem strictMono_unitsAt : StrictMono fun rank => (unitsAt rank : ℚ) :=
  strictMono_nat_of_lt_succ fun rank => Nat.cast_lt.mpr (unitsAt_lt_succ rank)

/-- A number of units of at least `span` has some doublings and a significand, rounded down. -/
theorem rankBelow_cases (units : Nat) : (units < span ∧ rankBelow units = units) ∨
    ∃ doublings significand, span ≤ significand ∧ significand < 2 * span ∧
      rankBelow units = doublings * span + significand ∧
      significand * 2 ^ doublings ≤ units ∧ units < (significand + 1) * 2 ^ doublings := by
  by_cases hsmall : units < span
  · refine .inl ⟨hsmall, ?_⟩
    rw [← unitsAt_of_lt hsmall, rankBelow_unitsAt, unitsAt_of_lt hsmall]
  · right
    have hpositive : units ≠ 0 := fun hzero => hsmall (hzero ▸ span_pos)
    have hlog : 52 ≤ units.log2 := (Nat.le_log2 hpositive).mpr (Nat.not_lt.mp hsmall)
    obtain ⟨doublings, hdoublings⟩ : ∃ doublings, units.log2 = 52 + doublings := Nat.exists_eq_add_of_le hlog
    obtain ⟨hleast, hgreatest⟩ := (Nat.log2_eq_iff hpositive).mp hdoublings
    have hpow : 0 < 2 ^ doublings := Nat.two_pow_pos doublings
    refine ⟨doublings, units / 2 ^ doublings, ?_, ?_, ?_, Nat.div_mul_le_self _ _, ?_⟩
    · rw [Nat.le_div_iff_mul_le hpow]
      rwa [Nat.pow_add] at hleast
    · rw [Nat.div_lt_iff_lt_mul hpow]
      rwa [show 52 + doublings + 1 = 52 + 1 + doublings by omega, Nat.pow_add _ (52 + 1), Nat.pow_succ'] at hgreatest
    · rw [rankBelow, Nat.pow_eq, hdoublings, Nat.add_sub_cancel_left]
    · exact (Nat.div_lt_iff_lt_mul hpow).mp (Nat.lt_succ_self _)

theorem unitsAt_rankBelow_le (units : Nat) : unitsAt (rankBelow units) ≤ units := by
  obtain ⟨hsmall, hrank⟩ | ⟨doublings, significand, hleast, hgreatest, hrank, hle, -⟩ := rankBelow_cases units
  · rw [hrank, unitsAt_of_lt hsmall]
  · rwa [hrank, unitsAt_of_significand hleast hgreatest]

theorem lt_unitsAt_rankBelow_succ (units : Nat) : units < unitsAt (rankBelow units + 1) := by
  obtain ⟨hsmall, hrank⟩ | ⟨doublings, significand, hleast, hgreatest, hrank, -, hlt⟩ := rankBelow_cases units
  · rw [hrank, unitsAt_succ_of_lt hsmall]
    exact Nat.lt_succ_self units
  · rwa [hrank, unitsAt_succ_of_significand hleast hgreatest]

section

variable (numerator : Nat) {denominator : Nat}

/-- A quotient lies between the units of two neighbouring ranks. -/
theorem quotient_between (h : 0 < denominator) :
    (unitsAt (rankBelow (numerator / denominator)) : ℚ) ≤ (numerator : ℚ) / denominator ∧
      (numerator : ℚ) / denominator < unitsAt (rankBelow (numerator / denominator) + 1) := by
  have hdenominator : (0 : ℚ) < denominator := Nat.cast_pos.mpr h
  have hleast := unitsAt_rankBelow_le (numerator / denominator)
  have hgreatest := lt_unitsAt_rankBelow_succ (numerator / denominator)
  rw [Nat.le_div_iff_mul_le h] at hleast
  rw [Nat.div_lt_iff_lt_mul h] at hgreatest
  constructor
  · rw [le_div_iff₀ hdenominator]
    exact_mod_cast hleast
  · rw [div_lt_iff₀ hdenominator]
    exact_mod_cast hgreatest

/-- Everything that rounding does to a quotient: it takes the nearer neighbour, and the even one in
the middle. -/
theorem nearestRank_cases (h : 0 < denominator) : ∃ below,
    (unitsAt below : ℚ) ≤ (numerator : ℚ) / denominator ∧ (numerator : ℚ) / denominator < unitsAt (below + 1) ∧
    (2 * ((numerator : ℚ) / denominator) < unitsAt below + unitsAt (below + 1) ∧
        nearestRank numerator denominator = below ∨
      unitsAt below + unitsAt (below + 1) < 2 * ((numerator : ℚ) / denominator) ∧
        nearestRank numerator denominator = below + 1 ∨
      2 * ((numerator : ℚ) / denominator) = unitsAt below + unitsAt (below + 1) ∧
        (nearestRank numerator denominator = below ∨ nearestRank numerator denominator = below + 1) ∧
        nearestRank numerator denominator % 2 = 0) := by
  obtain ⟨hleast, hgreatest⟩ := quotient_between numerator h
  refine ⟨rankBelow (numerator / denominator), hleast, hgreatest, ?_⟩
  have hdenominator : (0 : ℚ) < denominator := Nat.cast_pos.mpr h
  rw [← mul_div_assoc, div_lt_iff₀ hdenominator, lt_div_iff₀ hdenominator, div_eq_iff hdenominator.ne']
  unfold nearestRank
  extract_lets below middle
  split
  · rename_i hnearer
    exact .inl ⟨by exact_mod_cast hnearer, rfl⟩
  · split
    · rename_i hnearer
      exact .inr (.inl ⟨by exact_mod_cast hnearer, rfl⟩)
    · rename_i hbelow habove
      have hmiddle : 2 * numerator = middle := Nat.le_antisymm (Nat.not_lt.mp habove) (Nat.not_lt.mp hbelow)
      exact .inr (.inr ⟨by exact_mod_cast hmiddle, by omega, by omega⟩)

/-- The rank that a quotient is rounded to is nearer than every other one, or as near and even. -/
theorem nearestRank_nearest (h : 0 < denominator) {other : Nat} (hother : other ≠ nearestRank numerator denominator) :
    |(numerator : ℚ) / denominator - unitsAt (nearestRank numerator denominator)| <
        |(numerator : ℚ) / denominator - unitsAt other| ∨
      |(numerator : ℚ) / denominator - unitsAt (nearestRank numerator denominator)| ≤
        |(numerator : ℚ) / denominator - unitsAt other| ∧ nearestRank numerator denominator % 2 = 0 := by
  obtain ⟨below, hleast, hgreatest, ⟨hnearer, hrank⟩ | ⟨hnearer, hrank⟩ | ⟨hmiddle, hrank, heven⟩⟩ :=
    nearestRank_cases numerator h
  · rw [hrank] at hother ⊢
    exact .inl (lt_of_nearer_below strictMono_unitsAt hleast hnearer hother)
  · rw [hrank] at hother ⊢
    exact .inl (lt_of_nearer_above strictMono_unitsAt hgreatest hnearer hother)
  · exact .inr ⟨le_of_middle strictMono_unitsAt hmiddle hrank hother, heven⟩

/-- A quotient that is rounded past a rank is not below it. -/
theorem unitsAt_le_of_lt_nearestRank (h : 0 < denominator) {rank : Nat} (hrank : rank < nearestRank numerator denominator) :
    (unitsAt rank : ℚ) ≤ (numerator : ℚ) / denominator := by
  obtain ⟨below, hleast, -, hcases⟩ := nearestRank_cases numerator h
  have hbelow : rank ≤ below := by omega
  exact (strictMono_unitsAt.monotone hbelow).trans hleast

end

/-! ### The nearest magnitude -/

/-- The value of a magnitude; infinity counts with the power of two that would come next. -/
def value (m : Magnitude) : ℚ :=
  m.units / scale

/-- The magnitude is nearer to the exact value than every other one, or as near and even. The rank
of a finite magnitude is even exactly if the last binary digit of its significand is zero. -/
def IsNearest (exact : ℚ) (m : Magnitude) : Prop :=
  ∀ other : Magnitude, other ≠ m → |exact - m.value| < |exact - other.value| ∨
    |exact - m.value| ≤ |exact - other.value| ∧ m.rank % 2 = 0

theorem scale_pos : (0 : ℚ) < scale :=
  Nat.cast_pos.mpr (Nat.two_pow_pos 1074)

theorem distance_eq (units : ℚ) (m : Magnitude) : |units / scale - m.value| = |units - m.units| / scale := by
  rw [value, ← sub_div, abs_div, abs_of_pos scale_pos]

theorem isNearest_nearest (numerator : Nat) {denominator : Nat} (h : 0 < denominator) :
    IsNearest ((numerator : ℚ) / denominator / scale) (nearest numerator denominator) := by
  intro other hother
  rw [distance_eq, distance_eq, div_lt_div_iff_of_pos_right scale_pos, div_le_div_iff_of_pos_right scale_pos]
  by_cases hfinite : nearestRank numerator denominator ≤ infinityRank
  · have hrank : (nearest numerator denominator).rank = nearestRank numerator denominator := Nat.min_eq_left hfinite
    rw [units, units, hrank]
    exact nearestRank_nearest numerator h fun heq => hother (Magnitude.ext (heq.trans hrank.symm))
  · -- Infinity is the last magnitude, and the quotient lies beyond its units.
    have hrank : (nearest numerator denominator).rank = infinityRank := Nat.min_eq_right (Nat.le_of_not_le hfinite)
    have hbeyond := unitsAt_le_of_lt_nearestRank numerator h (Nat.lt_of_not_le hfinite)
    have hlast : other.rank < infinityRank :=
      Nat.lt_of_le_of_ne other.rank_le fun heq => hother (Magnitude.ext (heq.trans hrank.symm))
    have hless : (unitsAt other.rank : ℚ) < unitsAt infinityRank := strictMono_unitsAt hlast
    left
    rw [units, units, hrank, abs_sub_lt_abs_sub_iff_of_gt hless]
    linarith

theorem value_lt_value {m n : Magnitude} (h : m.rank < n.rank) : m.value < n.value := by
  rw [value, value, div_lt_div_iff_of_pos_right scale_pos]
  exact strictMono_unitsAt h

theorem IsNearest.le {exact : ℚ} {m : Magnitude} (h : IsNearest exact m) (other : Magnitude) :
    |exact - m.value| ≤ |exact - other.value| := by
  by_cases hother : other = m
  · rw [hother]
  · obtain hless | ⟨hle, -⟩ := h other hother
    · exact hless.le
    · exact hle

theorem IsNearest.even_of_le {exact : ℚ} {m other : Magnitude} (h : IsNearest exact m) (hne : other ≠ m)
    (hle : |exact - other.value| ≤ |exact - m.value|) : m.rank % 2 = 0 := by
  obtain hless | ⟨-, heven⟩ := h other hne
  · exact absurd hless (not_lt_of_ge hle)
  · exact heven

/-- Between two even ranks there is another one, which is nearer to the middle. -/
theorem IsNearest.rank_not_lt {exact : ℚ} {m n : Magnitude} (hm : IsNearest exact m) (hn : IsNearest exact n) :
    ¬m.rank < n.rank := by
  intro hless
  have hne : m ≠ n := fun heq => (Nat.ne_of_lt hless) (congrArg rank heq)
  have hmeven := hm.even_of_le hne.symm (hn.le m)
  have hneven := hn.even_of_le hne (hm.le n)
  let between : Magnitude := ⟨m.rank + 1, hless.trans_le n.rank_le⟩
  have hafter : m.value < between.value := value_lt_value (Nat.lt_succ_self m.rank)
  have hbefore : between.value < n.value := value_lt_value (show m.rank + 1 < n.rank by omega)
  have hmiddle := (abs_sub_le_abs_sub_iff_of_gt (value_lt_value hless) exact).mp (hn.le m)
  have hnearer := (abs_sub_le_abs_sub_iff_of_lt hafter exact).mp (hm.le between)
  linarith

theorem IsNearest.unique {exact : ℚ} {m n : Magnitude} (hm : IsNearest exact m) (hn : IsNearest exact n) : m = n :=
  Magnitude.ext (Nat.le_antisymm (Nat.not_lt.mp (hn.rank_not_lt hm)) (Nat.not_lt.mp (hm.rank_not_lt hn)))

end Magnitude

end Reckoner
