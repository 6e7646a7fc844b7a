import Mathlib
import Reckoner.Double.Shortest

/-!
# Rounding what is already a magnitude

A rank below `span` has its own number of units, and any other rank is some doublings and a
significand from `span` to just below twice as much. In this form ranks and units are read off one
another, the units grow with the rank, and rounding an exact number of units changes nothing.
Rounding depends on a quotient only, so two decimals with the same value have the same nearest
magnitude.
-/

namespace Reckoner

namespace Magnitude

theorem span_pos : 0 < span :=
  Nat.two_pow_pos 52

/-- A rank is small, or it is some doublings and a significand. -/
theorem rank_cases (rank : Nat) :
    rank < span ∨ ∃ doublings significand, span ≤ significand ∧ significand < 2 * span ∧
      rank = doublings * span + significand := by
  by_cases hsmall : rank < span
  · exact .inl hsmall
  · refine .inr ⟨rank / span - 1, span + rank % span, Nat.le_add_right _ _, ?_, ?_⟩
    · have hmod := Nat.mod_lt rank span_pos
      omega
    · have hquotient : 1 ≤ rank / span := (Nat.one_le_div_iff span_pos).mpr (Nat.not_lt.mp hsmall)
      have hdecompose := Nat.div_add_mod' rank span
      rw [Nat.sub_mul, Nat.one_mul]
      have hspan : span ≤ rank / span * span := Nat.le_mul_of_pos_left span hquotient
      omega

theorem unitsAt_of_lt {rank : Nat} (h : rank < span) : unitsAt rank = rank := by
  have hdoublings : rank / span - 1 = 0 := by rw [Nat.div_eq_of_lt h]
  rw [unitsAt, Nat.pow_eq, hdoublings, Nat.zero_mul, Nat.sub_zero, Nat.pow_zero, Nat.mul_one]

theorem unitsAt_of_significand {significand : Nat} (hleast : span ≤ significand) (hgreatest : significand < 2 * span)
    (doublings : Nat) : unitsAt (doublings * span + significand) = significand * 2 ^ doublings := by
  have hquotient : significand / span = 1 := by
    rw [Nat.div_eq_iff span_pos]
    omega
  have hdoublings : (doublings * span + significand) / span - 1 = doublings := by
    rw [Nat.add_comm, Nat.add_mul_div_right _ _ span_pos, hquotient, Nat.add_sub_cancel_left]
  rw [unitsAt, Nat.pow_eq, hdoublings, Nat.add_sub_cancel_left]

theorem unitsAt_succ_of_lt {rank : Nat} (h : rank < span) : unitsAt (rank + 1) = rank + 1 := by
  by_cases hnext : rank + 1 < span
  · exact unitsAt_of_lt hnext
  · have hspan : rank + 1 = 0 * span + span := by omega
    rw [hspan, unitsAt_of_significand (Nat.le_refl _) (by omega)]
    omega

theorem unitsAt_succ_of_significand {significand : Nat} (hleast : span ≤ significand)
    (hgreatest : significand < 2 * span) (doublings : Nat) :
    unitsAt (doublings * span + significand + 1) = (significand + 1) * 2 ^ doublings := by
  by_cases hnext : significand + 1 < 2 * span
  · rw [Nat.add_assoc, unitsAt_of_significand (by omega) hnext]
  · -- The next rank is the first one with one doubling more.
    have hspan : doublings * span + significand + 1 = (doublings + 1) * span + span := by
      rw [Nat.succ_mul]
      omega
    have hlast : significand + 1 = span * 2 := by omega
    rw [hspan, unitsAt_of_significand (Nat.le_refl _) (by omega), hlast, Nat.pow_succ', ← Nat.mul_assoc]

theorem unitsAt_lt_succ (rank : Nat) : unitsAt rank < unitsAt (rank + 1) := by
  obtain hsmall | ⟨doublings, significand, hleast, hgreatest, rfl⟩ := rank_cases rank
  · rw [unitsAt_of_lt hsmall, unitsAt_succ_of_lt hsmall]
    exact Nat.lt_succ_self rank
  · rw [unitsAt_of_significand hleast hgreatest, unitsAt_succ_of_significand hleast hgreatest]
    exact Nat.mul_lt_mul_of_pos_right (Nat.lt_succ_self _) (Nat.two_pow_pos _)

theorem rankBelow_unitsAt (rank : Nat) : rankBelow (unitsAt rank) = rank := by
  obtain hsmall | ⟨doublings, significand, hleast, hgreatest, rfl⟩ := rank_cases rank
  · rw [unitsAt_of_lt hsmall]
    have hlog : rank.log2 - 52 = 0 := by
      by_cases hzero : rank = 0
      · rw [hzero, Nat.log2_zero]
      · have hlog := (Nat.log2_lt hzero).mpr hsmall
        omega
    rw [rankBelow, Nat.pow_eq, hlog, Nat.zero_mul, Nat.pow_zero, Nat.div_one, Nat.zero_add]
  · rw [unitsAt_of_significand hleast hgreatest]
    have hpositive : 0 < significand := span_pos.trans_le hleast
    have hlog : (significand * 2 ^ doublings).log2 = 52 + doublings := by
      rw [Nat.log2_eq_iff (Nat.mul_pos hpositive (Nat.two_pow_pos _)).ne']
      constructor
      · rw [Nat.pow_add]
        exact Nat.mul_le_mul_right _ hleast
      · rw [show 52 + doublings + 1 = 52 + 1 + doublings by omega, Nat.pow_add _ (52 + 1), Nat.pow_succ']
        exact Nat.mul_lt_mul_of_pos_right hgreatest (Nat.two_pow_pos _)
    rw [rankBelow, Nat.pow_eq, hlog, Nat.add_sub_cancel_left, Nat.mul_div_cancel _ (Nat.two_pow_pos _)]

/-- Rounding an exact number of units gives its rank. -/
theorem nearestRank_unitsAt_mul (rank : Nat) {denominator : Nat} (h : 0 < denominator) :
    nearestRank (unitsAt rank * denominator) denominator = rank := by
  have hnext := unitsAt_lt_succ rank
  have hless : 2 * (unitsAt rank * denominator) < (unitsAt rank + unitsAt (rank + 1)) * denominator := by
    rw [← Nat.mul_assoc]
    exact Nat.mul_lt_mul_of_pos_right (by omega) h
  rw [nearestRank, Nat.mul_div_cancel _ h, rankBelow_unitsAt]
  exact if_pos hless

/-- Only the quotient matters. -/
theorem nearestRank_mul_mul (numerator denominator : Nat) {factor : Nat} (h : 0 < factor) :
    nearestRank (numerator * factor) (denominator * factor) = nearestRank numerator denominator := by
  simp only [nearestRank, Nat.mul_div_mul_right _ _ h, ← Nat.mul_assoc, Nat.mul_lt_mul_right h]

theorem nearest_eq_of_mul_eq {n n' d d' : Nat} (hd : 0 < d) (hd' : 0 < d') (h : n * d' = n' * d) :
    nearest n d = nearest n' d' := by
  have hrank : nearestRank n d = nearestRank n' d' := by
    rw [← nearestRank_mul_mul n d hd', h, Nat.mul_comm d d', nearestRank_mul_mul n' d' hd]
  exact Magnitude.ext (congrArg (min · infinityRank) hrank)

theorem nearest_units_mul (m : Magnitude) {denominator : Nat} (h : 0 < denominator) :
    nearest (m.units * denominator) denominator = m := by
  have hrank : nearestRank (m.units * denominator) denominator = m.rank := nearestRank_unitsAt_mul m.rank h
  exact Magnitude.ext ((congrArg (min · infinityRank) hrank).trans (Nat.min_eq_left m.rank_le))

/-! ### Zero and infinity -/

theorem isInfinite_infinity : infinity.isInfinite = true :=
  beq_self_eq_true infinityRank

theorem isZero_infinity : infinity.isZero = false := by
  decide

theorem units_zero : zero.units = 0 :=
  unitsAt_of_lt span_pos

theorem eq_zero_of_isZero {m : Magnitude} (h : m.isZero = true) : m = zero :=
  Magnitude.ext (beq_iff_eq.mp h)

theorem eq_infinity_of_isInfinite {m : Magnitude} (h : m.isInfinite = true) : m = infinity :=
  Magnitude.ext (beq_iff_eq.mp h)

end Magnitude

namespace Decimal

/-- The exact value, before it is rounded. -/
def value (d : Decimal) : ℚ :=
  d.digits * 10 ^ d.exponent

theorem denominator_pos (d : Decimal) : 0 < d.denominator :=
  Nat.pow_pos (by decide)

theorem numerator_of_nonpos {d : Decimal} (h : d.exponent ≤ 0) : d.numerator = d.digits := by
  rw [numerator, Nat.pow_eq, Int.toNat_of_nonpos h, Nat.pow_zero, Nat.mul_one]

theorem value_eq_div (d : Decimal) : d.value = d.numerator / d.denominator := by
  have hexponent : d.exponent = (d.exponent.toNat : Int) - ((-d.exponent).toNat : Int) := by omega
  rw [value, hexponent, zpow_sub₀ (by norm_num), zpow_natCast, zpow_natCast, ← mul_div_assoc]
  simp only [numerator, denominator, Nat.pow_eq, Nat.cast_mul, Nat.cast_pow, Nat.cast_ofNat]

/-- Decimals with the same value are rounded to the same magnitude. -/
theorem nearest_eq_of_value_eq {d e : Decimal} (h : d.value = e.value) : d.nearest = e.nearest := by
  have hd : (d.denominator : ℚ) ≠ 0 := Nat.cast_ne_zero.mpr d.denominator_pos.ne'
  have he : (e.denominator : ℚ) ≠ 0 := Nat.cast_ne_zero.mpr e.denominator_pos.ne'
  have hcross : d.numerator * e.denominator = e.numerator * d.denominator := by
    rw [value_eq_div, value_eq_div, div_eq_div_iff hd he] at h
    exact_mod_cast h
  apply Magnitude.nearest_eq_of_mul_eq d.denominator_pos e.denominator_pos
  rw [Nat.mul_right_comm, hcross, Nat.mul_right_comm]

end Decimal

namespace Magnitude

/-- Units of `2 ^ -n` are whole numbers of `10 ^ -n`. -/
theorem nearest_units_mul_five_pow (m : Magnitude) {n : Nat} (h : scale = 2 ^ n) :
    (⟨m.units * 5 ^ n, -n⟩ : Decimal).nearest = m := by
  have hten : 5 ^ n * 2 ^ n = 10 ^ n := (Nat.mul_pow 5 2 n).symm
  have hexponent : (- -(n : Int)).toNat = n := by rw [Int.neg_neg, Int.toNat_natCast]
  have hnumerator : (⟨m.units * 5 ^ n, -n⟩ : Decimal).numerator = m.units * 5 ^ n :=
    Decimal.numerator_of_nonpos (by simp)
  rw [Decimal.nearest, hnumerator, Decimal.denominator, hexponent, h, Nat.mul_assoc, hten]
  exact m.nearest_units_mul (Nat.pow_pos (by decide))

theorem nearest_exactDecimal (m : Magnitude) : m.exactDecimal.nearest = m :=
  m.nearest_units_mul_five_pow rfl

theorem nearest_of_onGrid? {m : Magnitude} {dropped : Nat} {d : Decimal} (h : m.onGrid? dropped = some d) :
    d.nearest = m := by
  unfold onGrid? at h
  extract_lets step below exponent lower upper at h
  split at h
  · rename_i hlower
    split at h
    · rename_i hupper
      split at h
      · exact Option.some.inj h ▸ hlower
      · exact Option.some.inj h ▸ hupper
    · exact Option.some.inj h ▸ hlower
  · split at h
    · rename_i hupper
      exact Option.some.inj h ▸ hupper
    · exact absurd h nofun

/-- The shortest decimal is read back. -/
theorem nearest_shortest (m : Magnitude) : m.shortest.nearest = m := by
  have hsearch {search : Nat → Option Decimal} (hread : ∀ extra d, search extra = some d → d.nearest = m) :
      (((List.range 17).findSome? search).getD m.exactDecimal).nearest = m := by
    cases hfound : (List.range 17).findSome? search with
    | none => exact m.nearest_exactDecimal
    | some d =>
      obtain ⟨extra, -, hd⟩ := List.exists_of_findSome?_eq_some hfound
      exact hread extra d hd
  exact hsearch fun _ _ hd => nearest_of_onGrid? hd

end Magnitude

end Reckoner
