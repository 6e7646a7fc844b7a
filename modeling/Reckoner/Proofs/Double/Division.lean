import Mathlib
import Reckoner.Proofs.Double.Exact

/-!
# Division that does not break off

Division breaks off at both zeros, and it does so for every dividend. Expressions are evaluated with
a division that takes this up: it has no number for a zero and for what is no number, and otherwise
multiplies an infinity that has the sign of the dividend by a one that has the sign of the divisor.
The product is an infinity with the product of the signs. So for every two doubles the result is the
exact quotient of IEEE 754, rounded.
-/

namespace Reckoner

namespace Magnitude

theorem units_pos {m : Magnitude} (h : m ≠ zero) : 0 < m.units := by
  refine Nat.pos_of_ne_zero fun hunits => h (value_eq_zero_iff.mp ?_)
  rw [value, hunits, Nat.cast_zero, zero_div]

/-- A quotient of values, in units. -/
theorem value_div_value (m : Magnitude) {n : Magnitude} (hn : n ≠ zero) :
    m.value / n.value = (m.units * scale : Nat) / n.units / scale := by
  have hscale := scale_pos.ne'
  have hunits : (n.units : ℚ) ≠ 0 := Nat.cast_ne_zero.mpr (units_pos hn).ne'
  rw [value, value, Nat.cast_mul]
  field_simp

end Magnitude

namespace Double

/-! ### Where division breaks off -/

theorem agrees_zero_iff {x : Double} : x.agrees zero = true ↔ ∃ negative, x = signed negative .zero := by
  constructor
  · intro h
    cases x with
    | nan => exact absurd h Bool.false_ne_true
    | signed s m =>
      have hrank : m.rank = Magnitude.zero.rank := beq_iff_eq.mp (Bool.and_eq_true_iff.mp h).1
      exact ⟨s, by rw [Magnitude.ext hrank]⟩
  · rintro ⟨s, rfl⟩
    cases s <;> rfl

theorem divide_zero (x : Double) (t : Bool) : x.divide (signed t .zero) = .error .zeroDivisor :=
  if_pos (agrees_zero_iff.mpr ⟨t, rfl⟩)

theorem divide_of_ne_zero (x : Double) {y : Double} (hy : ∀ t, y ≠ signed t .zero) :
    x.divide y = .ok (x.quotient y) := by
  refine if_neg fun hagrees => ?_
  obtain ⟨t, rfl⟩ := agrees_zero_iff.mp hagrees
  exact hy t rfl

theorem div_of_ne_zero (x : Double) {y : Double} (hy : ∀ t, y ≠ signed t .zero) : x.div y = x.quotient y := by
  rw [div, x.divide_of_ne_zero hy]

theorem quotient_roundsTo (x : Double) {y : Double} (hy : ∀ t, y ≠ signed t .zero) :
    (x.exact.div y.exact).RoundsTo (x.quotient y) := by
  obtain rfl | ⟨s, rfl⟩ | ⟨s, m, rfl, hm⟩ := x.exact_cases
  · exact rfl
  · rw [exact_infinity]
    obtain rfl | ⟨t, rfl⟩ | ⟨t, n, rfl, hn⟩ := y.exact_cases
    · exact rfl
    · rw [exact_infinity, quotient, Magnitude.isInfinite_infinity, if_pos rfl, if_pos rfl]
      exact rfl
    · rw [exact_of_finite _ hn, quotient, Magnitude.isInfinite_infinity, hn, if_pos rfl, if_neg Bool.false_ne_true]
      exact rfl
  · rw [exact_of_finite _ hm]
    obtain rfl | ⟨t, rfl⟩ | ⟨t, n, rfl, hn⟩ := y.exact_cases
    · exact rfl
    · rw [exact_infinity, Exact.div, quotient, Magnitude.isInfinite_infinity, hm, if_neg Bool.false_ne_true,
        if_pos rfl, ← Magnitude.value_zero]
      exact ⟨_, Magnitude.zero.isNearest_value, rfl⟩
    · have hdivisor : n ≠ .zero := fun hzero => hy t (by rw [hzero])
      rw [exact_of_finite _ hn, Exact.div, if_neg (mt Magnitude.value_eq_zero_iff.mp hdivisor),
        Magnitude.value_div_value m hdivisor, quotient, hm, hn, if_neg Bool.false_ne_true, if_neg Bool.false_ne_true]
      exact roundsTo_signed _ _ (Magnitude.units_pos hdivisor)

/-! ### What is put in place of a division by zero -/

theorem exists_one : ∃ m : Magnitude, one = signed false m ∧ m.isInfinite = false ∧ m.value = 1 := by
  let m : Magnitude := ⟨1022 * Magnitude.span + Magnitude.span, by decide⟩
  have hunits : m.units = Magnitude.scale := by
    have hscale : Magnitude.span * 2 ^ 1022 = Magnitude.scale := by decide +kernel
    rw [← hscale]
    exact Magnitude.unitsAt_of_significand (Nat.le_refl Magnitude.span) (by decide) 1022
  have hscale : 0 < Magnitude.scale := Nat.cast_pos.mp Magnitude.scale_pos
  have hpositive : ¬(Magnitude.scale : Int) < 0 := by omega
  have hnearest := m.nearest_units_mul Nat.one_pos
  rw [hunits, Nat.mul_one] at hnearest
  refine ⟨m, ?_, by decide, ?_⟩
  · rw [one, ofUnits, if_neg (Int.natCast_ne_zero.mpr hscale.ne'), Int.natAbs_natCast, hnearest, decide_eq_false hpositive]
  · rw [Magnitude.value, hunits, div_self Magnitude.scale_pos.ne']

/-- An infinity times a one has the product of the signs. -/
theorem copySign_infinity_mul_copySign_one (x y : Double) :
    (infinity.copySign x).mul (one.copySign y) = signed (x.isNegative != y.isNegative) .infinity := by
  obtain ⟨m, hone, hfinite, hvalue⟩ := exists_one
  have hproduct := mul_roundsTo (signed x.isNegative .infinity) (signed y.isNegative m)
  rw [exact_infinity, exact_of_finite _ hfinite, hvalue, Exact.mul, if_neg one_ne_zero] at hproduct
  rw [hone]
  exact hproduct

theorem div_zero (x : Double) (t : Bool) : x.div (signed t .zero) =
    if x.agrees zero || x.isNan then nan else signed (x.isNegative != t) .infinity := by
  have hsign : (signed t .zero).isNegative = t := rfl
  rw [div, divide_zero]
  simp only [copySign_infinity_mul_copySign_one, hsign]

theorem nan_div_zero (t : Bool) : nan.div (signed t .zero) = nan :=
  nan.div_zero t

theorem zero_div_zero (s t : Bool) : (signed s .zero).div (signed t .zero) = nan := by
  have hzero : (signed s .zero).agrees zero = true := agrees_zero_iff.mpr ⟨s, rfl⟩
  rw [div_zero, hzero, Bool.true_or, if_pos rfl]

theorem div_zero_of_ne_zero {m : Magnitude} (hm : m ≠ .zero) (s t : Bool) :
    (signed s m).div (signed t .zero) = signed (s != t) .infinity := by
  have hdividend : (signed s m).agrees zero = false := by
    rw [Bool.eq_false_iff, Ne, agrees_zero_iff]
    rintro ⟨_, heq⟩
    injection heq with _ hzero
    exact hm hzero
  rw [div_zero, hdividend]
  rfl

/-! ### The quotient -/

theorem div_zero_roundsTo (x : Double) (t : Bool) :
    (x.exact.div (signed t .zero).exact).RoundsTo (x.div (signed t .zero)) := by
  have hdivisor : (signed t .zero).exact = .finite t 0 := by
    rw [exact_of_finite t (by decide : Magnitude.zero.isInfinite = false), Magnitude.value_zero]
  rw [hdivisor]
  obtain rfl | ⟨s, rfl⟩ | ⟨s, m, rfl, hm⟩ := x.exact_cases
  · exact nan_div_zero t
  · rw [exact_infinity, div_zero_of_ne_zero (by decide)]
    exact rfl
  · rw [exact_of_finite _ hm, Exact.div, if_pos rfl]
    by_cases hzero : m = .zero
    · rw [hzero, zero_div_zero, Magnitude.value_zero, if_pos rfl]
      exact rfl
    · rw [div_zero_of_ne_zero hzero, if_neg (mt Magnitude.value_eq_zero_iff.mp hzero)]
      exact rfl

/-- The division that does not break off gives the exact quotient, rounded. -/
theorem div_roundsTo (x y : Double) : (x.exact.div y.exact).RoundsTo (x.div y) := by
  by_cases hy : ∃ t, y = signed t .zero
  · obtain ⟨t, rfl⟩ := hy
    exact x.div_zero_roundsTo t
  · rw [not_exists] at hy
    rw [x.div_of_ne_zero hy]
    exact x.quotient_roundsTo hy

end Double

end Reckoner
