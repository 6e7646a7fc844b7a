import Mathlib
import Reckoner.Proofs.Double.Exact

/-!
# The range of doubles

The finite magnitudes are the numbers of the 64-bit binary format: a significand of at most 53
binary digits, times a power of two. If the significand is taken as long as the exponents allow, its
last digit tells whether the rank is even.

Rounding is a function of the exact value, and it never turns a smaller value into a greater one. It
overflows from the middle between the greatest finite magnitude and the power of two after it, and
underflows up to the middle between zero and the smallest positive magnitude. Both ends have an even
rank, so the middle goes to infinity in the first case and to zero in the second.
-/

namespace Reckoner

namespace Magnitude

/-! ### Significands and exponents -/

/-- A significand and an exponent of the 64-bit binary format; the significand has all of its 53
digits unless the exponent is the least one. -/
structure CanonicalForm (significand : Nat) (exponent : Int) : Prop where
  significand_lt : significand < 2 ^ 53
  least_le : -1074 ≤ exponent
  le_greatest : exponent ≤ 971
  full_or_least : 2 ^ 52 ≤ significand ∨ exponent = -1074

theorem span_eq : span = 2 ^ 52 :=
  rfl

theorem infinityRank_eq : infinityRank = 2047 * span :=
  rfl

theorem cast_two_pow (n : Nat) : ((Nat.pow 2 n : ℕ) : ℚ) = 2 ^ n := by
  rw [Nat.pow_eq, Nat.cast_pow, Nat.cast_ofNat]

theorem scale_eq : (scale : ℚ) = 2 ^ 1074 :=
  cast_two_pow 1074

theorem isInfinite_eq_false_iff {m : Magnitude} : m.isInfinite = false ↔ m.rank < infinityRank := by
  have hle := m.rank_le
  rw [isInfinite, beq_eq_false_iff_ne]
  omega

theorem value_of_units {m : Magnitude} {significand doublings : Nat} (h : m.units = significand * 2 ^ doublings) :
    m.value = significand * 2 ^ ((doublings : Int) - 1074) := by
  rw [value, h, scale_eq, Nat.cast_mul, Nat.cast_pow, Nat.cast_ofNat, zpow_sub₀ two_ne_zero, zpow_natCast,
    zpow_ofNat, mul_div_assoc]

/-- Whole spans do not change whether a rank is even. -/
theorem add_spans_mod_two (doublings significand : Nat) : (doublings * span + significand) % 2 = significand % 2 := by
  have heven : span % 2 = 0 := rfl
  rw [Nat.add_mod, Nat.mul_mod, heven, Nat.mul_zero, Nat.zero_mod, Nat.zero_add, Nat.mod_mod]

theorem exists_canonicalForm {m : Magnitude} (h : m.isInfinite = false) : ∃ significand exponent,
    CanonicalForm significand exponent ∧ (significand * 2 ^ exponent : ℚ) = m.value ∧
      significand % 2 = m.rank % 2 := by
  have hspan := span_eq
  have hfinite := isInfinite_eq_false_iff.mp h
  rw [infinityRank_eq] at hfinite
  obtain hsmall | ⟨doublings, significand, hleast, hgreatest, hrank⟩ := rank_cases m.rank
  · have hunits : m.units = m.rank * 2 ^ 0 := by rw [units, unitsAt_of_lt hsmall, Nat.pow_zero, Nat.mul_one]
    refine ⟨m.rank, (0 : Nat) - 1074, ⟨?_, ?_, ?_, ?_⟩, (value_of_units hunits).symm, rfl⟩ <;> omega
  · have hunits : m.units = significand * 2 ^ doublings := by
      rw [units, hrank, unitsAt_of_significand hleast hgreatest]
    have hdoublings : doublings < 2046 := by
      have hspans : (doublings + 1) * span < 2047 * span := by
        rw [Nat.succ_mul]
        omega
      have hcount := Nat.lt_of_mul_lt_mul_right hspans
      omega
    refine ⟨significand, (doublings : Int) - 1074, ⟨?_, ?_, ?_, ?_⟩, (value_of_units hunits).symm, ?_⟩
    · omega
    · omega
    · omega
    · omega
    · rw [hrank, add_spans_mod_two]

theorem CanonicalForm.exists_magnitude {significand : Nat} {exponent : Int} (h : CanonicalForm significand exponent) :
    ∃ m : Magnitude, m.isInfinite = false ∧ m.value = significand * 2 ^ exponent ∧ m.rank % 2 = significand % 2 := by
  have hspan := span_eq
  have hgreatest : significand < 2 * span := by
    have hlt := h.significand_lt
    omega
  have hleast := h.least_le
  have hmost := h.le_greatest
  obtain ⟨doublings, hexponent⟩ : ∃ doublings : Nat, exponent = (doublings : Int) - 1074 :=
    ⟨(exponent + 1074).toNat, by omega⟩
  have hspans : doublings * span ≤ 2045 * span := Nat.mul_le_mul_right span (by omega)
  have hfinite : doublings * span + significand < infinityRank := by
    rw [infinityRank_eq]
    omega
  refine ⟨⟨doublings * span + significand, hfinite.le⟩, isInfinite_eq_false_iff.mpr hfinite, ?_,
    add_spans_mod_two doublings significand⟩
  have hunits : unitsAt (doublings * span + significand) = significand * 2 ^ doublings := by
    by_cases hsmall : significand < span
    · -- Only with the least exponent may the significand be this short.
      have hnone : doublings = 0 := by
        have hshort := h.full_or_least
        omega
      rw [hnone, Nat.zero_mul, Nat.zero_add, Nat.pow_zero, Nat.mul_one, unitsAt_of_lt hsmall]
    · exact unitsAt_of_significand (Nat.not_lt.mp hsmall) hgreatest doublings
  rw [hexponent]
  exact value_of_units hunits

/-- The finite magnitudes have the values of the 64-bit binary format, and an even rank for an even
significand. -/
theorem finite_iff_canonicalForm (x : ℚ) (parity : Nat) :
    (∃ m : Magnitude, m.isInfinite = false ∧ m.value = x ∧ m.rank % 2 = parity) ↔
      ∃ significand exponent, CanonicalForm significand exponent ∧ significand * 2 ^ exponent = x ∧
        significand % 2 = parity := by
  constructor
  · rintro ⟨m, hm, rfl, rfl⟩
    exact exists_canonicalForm hm
  · rintro ⟨significand, exponent, h, rfl, rfl⟩
    exact h.exists_magnitude

/-! ### Rounding as a function of the exact value -/

theorem IsNearest.value_le_value {x y : ℚ} {m n : Magnitude} (hm : m.IsNearest x) (hn : n.IsNearest y) (h : x ≤ y) :
    m.value ≤ n.value := by
  by_contra hless
  have hvalues : n.value < m.value := lt_of_not_ge hless
  have hx := (abs_sub_le_abs_sub_iff_of_gt hvalues x).mp (hm.le n)
  have hy := (abs_sub_le_abs_sub_iff_of_lt hvalues y).mp (hn.le m)
  -- Both exact values are the middle, and from there rounding goes to one magnitude only.
  have hsame : x = y := by linarith
  rw [← hsame] at hn
  rw [hm.unique hn] at hvalues
  exact lt_irrefl _ hvalues

theorem value_pos_of_ne_zero {m : Magnitude} (h : m ≠ zero) : 0 < m.value := by
  have hrank : zero.rank < m.rank := Nat.pos_of_ne_zero fun hzero => h (Magnitude.ext hzero)
  have hvalue := value_lt_value hrank
  rwa [value_zero] at hvalue

/-- The magnitude that is nearest to a number; it is zero for a negative one. -/
def ofRat (x : ℚ) : Magnitude :=
  .nearest (x.num.toNat * scale) x.den

theorem isNearest_ofRat_of_nonneg {x : ℚ} (h : 0 ≤ x) : (ofRat x).IsNearest x := by
  have hnum : ((x.num.toNat : ℕ) : ℚ) = x.num := by
    rw [← Int.cast_natCast, Int.toNat_of_nonneg (Rat.num_nonneg.mpr h)]
  have hvalue : ((x.num.toNat * scale : ℕ) : ℚ) / x.den / scale = x := by
    rw [Nat.cast_mul, hnum, div_div, mul_comm (x.den : ℚ), ← div_div, mul_div_cancel_right₀ _ scale_pos.ne',
      Rat.num_div_den]
  have hnearest := isNearest_nearest (x.num.toNat * scale) x.den_pos
  rwa [hvalue] at hnearest

theorem isNearest_ofRat_of_neg {x : ℚ} (h : x < 0) : (ofRat x).IsNearest x := by
  have hnum : x.num.toNat = 0 := Int.toNat_of_nonpos (Rat.num_nonpos.mpr h.le)
  have hzero : ofRat x = zero := by
    have hnearest := zero.nearest_units_mul x.den_pos
    rw [units_zero, Nat.zero_mul] at hnearest
    rw [ofRat, hnum, Nat.zero_mul, hnearest]
  intro other hother
  rw [hzero] at hother ⊢
  have hpositive := value_pos_of_ne_zero hother
  left
  rw [value_zero, abs_of_neg (by linarith), abs_of_neg (by linarith)]
  linarith

theorem isNearest_ofRat (x : ℚ) : (ofRat x).IsNearest x := by
  obtain h | h := lt_or_ge x 0
  · exact isNearest_ofRat_of_neg h
  · exact isNearest_ofRat_of_nonneg h

theorem isNearest_iff_eq_ofRat {x : ℚ} {m : Magnitude} : m.IsNearest x ↔ m = ofRat x := by
  constructor
  · exact fun h => h.unique (isNearest_ofRat x)
  · rintro rfl
    exact isNearest_ofRat x

theorem monotone_value_ofRat : Monotone fun x => (ofRat x).value :=
  fun x y h => (isNearest_ofRat x).value_le_value (isNearest_ofRat y) h

/-! ### Overflow and underflow -/

theorem value_infinity : infinity.value = 2 ^ 1024 := by
  have hspan := span_pos
  have hrank : infinity.rank = 2046 * span + span := by
    rw [← Nat.succ_mul]
    exact infinityRank_eq
  have hunits : infinity.units = span * 2 ^ 2046 := by
    rw [units, hrank, unitsAt_of_significand (Nat.le_refl span) (by omega)]
  have hexponent : ((2046 : ℕ) : ℤ) - 1074 = (972 : ℕ) := rfl
  have hcast : (span : ℚ) = 2 ^ 52 := cast_two_pow 52
  rw [value_of_units hunits, hcast, hexponent, zpow_natCast, ← pow_add]

/-- The last magnitude before infinity. -/
def greatest : Magnitude :=
  ⟨infinityRank - 1, Nat.sub_le _ _⟩

theorem value_greatest : greatest.value = 2 ^ 1024 - 2 ^ 971 := by
  have hspan := span_pos
  have hrank : greatest.rank = 2045 * span + (2 * span - 1) := by
    have hbefore : greatest.rank = 2047 * span - 1 := rfl
    omega
  have hunits : greatest.units = (2 * span - 1) * 2 ^ 2045 := by
    rw [units, hrank, unitsAt_of_significand (by omega) (by omega)]
  have hcast : (span : ℚ) = 2 ^ 52 := cast_two_pow 52
  have hsignificand : ((2 * span - 1 : ℕ) : ℚ) = 2 ^ 53 - 1 := by
    rw [Nat.cast_sub (by omega), Nat.cast_mul, hcast, Nat.cast_ofNat, Nat.cast_one, ← pow_succ']
  have hexponent : ((2045 : ℕ) : ℤ) - 1074 = (971 : ℕ) := rfl
  rw [value_of_units hunits, hsignificand, hexponent, zpow_natCast, sub_mul, one_mul, ← pow_add]

/-- The first magnitude after zero. -/
def least : Magnitude :=
  ⟨1, by decide⟩

theorem value_least : least.value = 2 ^ (-1074 : Int) := by
  have hunits : least.units = 1 * 2 ^ 0 := unitsAt_succ_of_lt span_pos
  rw [value_of_units hunits, Nat.cast_one, one_mul]
  rfl

theorem value_le_value_of_rank_le {m n : Magnitude} (h : m.rank ≤ n.rank) : m.value ≤ n.value := by
  obtain hless | heq := Nat.lt_or_eq_of_le h
  · exact (value_lt_value hless).le
  · rw [Magnitude.ext heq]

theorem isNearest_infinity_iff {x : ℚ} : infinity.IsNearest x ↔ greatest.value + infinity.value ≤ 2 * x := by
  have hpositive : 0 < infinityRank := by decide
  have hlast : greatest.value < infinity.value := value_lt_value (Nat.sub_lt hpositive Nat.one_pos)
  constructor
  · exact fun h => (abs_sub_le_abs_sub_iff_of_gt hlast x).mp (h.le greatest)
  · intro h other hother
    have hfinite : other.rank < infinityRank := Nat.lt_of_le_of_ne other.rank_le fun heq => hother (Magnitude.ext heq)
    have hless : other.value < infinity.value := value_lt_value hfinite
    have hbefore : other.value ≤ greatest.value := value_le_value_of_rank_le (Nat.le_sub_one_of_lt hfinite)
    exact .inr ⟨(abs_sub_le_abs_sub_iff_of_gt hless x).mpr (by linarith), rfl⟩

theorem isNearest_zero_iff {x : ℚ} : zero.IsNearest x ↔ 2 * x ≤ zero.value + least.value := by
  have hfirst : zero.value < least.value := value_lt_value Nat.one_pos
  constructor
  · exact fun h => (abs_sub_le_abs_sub_iff_of_lt hfirst x).mp (h.le least)
  · intro h other hother
    have hpositive : 0 < other.rank := Nat.pos_of_ne_zero fun heq => hother (Magnitude.ext heq)
    have hless : zero.value < other.value := value_lt_value hpositive
    have hafter : least.value ≤ other.value := value_le_value_of_rank_le hpositive
    exact .inr ⟨(abs_sub_le_abs_sub_iff_of_lt hless x).mpr (by linarith), rfl⟩

theorem ofRat_eq_infinity_iff (x : ℚ) : ofRat x = infinity ↔ 2 ^ 1024 - 2 ^ 970 ≤ x := by
  have hgap : (2 : ℚ) ^ 971 = 2 * 2 ^ 970 := pow_succ' 2 970
  have hmiddle (top gap : ℚ) : top - 2 * gap + top ≤ 2 * x ↔ top - gap ≤ x := by
    have hdouble : top - 2 * gap + top = 2 * (top - gap) := by ring
    rw [hdouble, mul_le_mul_iff_right₀ two_pos]
  rw [eq_comm, ← isNearest_iff_eq_ofRat, isNearest_infinity_iff, value_greatest, value_infinity, hgap]
  exact hmiddle _ _

theorem ofRat_eq_zero_iff (x : ℚ) : ofRat x = zero ↔ x ≤ 2 ^ (-1075 : Int) := by
  have hgap : (2 : ℚ) ^ (-1074 : Int) = 2 * 2 ^ (-1075 : Int) := zpow_one_add₀ two_ne_zero (-1075)
  rw [eq_comm, ← isNearest_iff_eq_ofRat, isNearest_zero_iff, value_least, value_zero, zero_add, hgap,
    mul_le_mul_iff_right₀ two_pos]

end Magnitude

end Reckoner
