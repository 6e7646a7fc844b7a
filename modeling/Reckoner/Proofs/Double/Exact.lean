import Mathlib
import Reckoner.Double.Arithmetic
import Reckoner.Proofs.Double.Nearest

/-!
# Exact results

Arithmetic on doubles as IEEE 754 has it: an operation has an exact result, which may be an infinity
or no number at all, and this result is rounded once, to the nearest double and in the middle to the
even one. Exact results have a sign, which zeros and infinities have as well. Each operation on
doubles gives the exact result of its operands, rounded in this way, and nothing else does.
-/

namespace Reckoner

/-- What an operation on doubles has as its result before rounding. -/
inductive Exact
  | undefined
  | infinite (negative : Bool)
  | finite (negative : Bool) (absolute : ℚ)

namespace Exact

/-- A rational number; the sign given is for zero. -/
def ofRat (zeroNegative : Bool) (x : ℚ) : Exact :=
  finite (if x = 0 then zeroNegative else decide (x < 0)) |x|

def signedValue (negative : Bool) (absolute : ℚ) : ℚ :=
  if negative then -absolute else absolute

def negate : Exact → Exact
  | undefined => undefined
  | infinite s => infinite (!s)
  | finite s x => finite (!s) x

/-- A sum that is zero is positive unless both summands are negative. -/
def add : Exact → Exact → Exact
  | finite s x, finite t y => ofRat (s && t) (signedValue s x + signedValue t y)
  | finite _ _, infinite t => infinite t
  | infinite s, finite _ _ => infinite s
  | infinite s, infinite t => if s = t then infinite s else undefined
  | _, _ => undefined

def sub (x y : Exact) : Exact :=
  x.add y.negate

/-- Zero times infinity is undefined. -/
def mul : Exact → Exact → Exact
  | finite s x, finite t y => finite (s != t) (x * y)
  | finite s x, infinite t => if x = 0 then undefined else infinite (s != t)
  | infinite s, finite t y => if y = 0 then undefined else infinite (s != t)
  | infinite s, infinite t => infinite (s != t)
  | _, _ => undefined

/-- Zero by zero and infinity by infinity are undefined. -/
def div : Exact → Exact → Exact
  | finite s x, finite t y =>
    if y = 0 then if x = 0 then undefined else infinite (s != t)
    else finite (s != t) (x / y)
  | finite s _, infinite t => finite (s != t) 0
  | infinite s, finite t _ => infinite (s != t)
  | _, _ => undefined

/-- The double is what the exact result is rounded to. -/
def RoundsTo : Exact → Double → Prop
  | undefined, x => x = .nan
  | infinite s, x => x = .signed s .infinity
  | finite s absolute, x => ∃ m : Magnitude, m.IsNearest absolute ∧ x = .signed s m

theorem RoundsTo.unique {exact : Exact} {x y : Double} (hx : exact.RoundsTo x) (hy : exact.RoundsTo y) : x = y := by
  cases exact with
  | undefined | infinite => exact hx.trans hy.symm
  | finite s absolute =>
    obtain ⟨m, hm, rfl⟩ := hx
    obtain ⟨n, hn, rfl⟩ := hy
    rw [hm.unique hn]

end Exact

namespace Magnitude

theorem value_zero : zero.value = 0 := by
  rw [value, units_zero, Nat.cast_zero, zero_div]

theorem isZero_eq_decide (m : Magnitude) : m.isZero = decide (m.value = 0) := by
  cases hzero : m.isZero with
  | true =>
    rw [eq_zero_of_isZero hzero, value_zero]
    rfl
  | false =>
    have hrank : zero.rank < m.rank := Nat.pos_of_ne_zero (beq_eq_false_iff_ne.mp hzero)
    have hvalue := value_lt_value hrank
    rw [value_zero] at hvalue
    exact (decide_eq_false hvalue.ne').symm

theorem value_eq_zero_iff {m : Magnitude} : m.value = 0 ↔ m = zero := by
  constructor
  · exact fun hvalue => eq_zero_of_isZero (m.isZero_eq_decide.trans (decide_eq_true hvalue))
  · rintro rfl
    exact value_zero

theorem isNearest_value (m : Magnitude) : m.IsNearest m.value := by
  have hnearest := isNearest_nearest m.units Nat.one_pos
  have hsame := m.nearest_units_mul Nat.one_pos
  rw [Nat.mul_one] at hsame
  rwa [hsame, Nat.cast_one, div_one] at hnearest

end Magnitude

namespace Double

/-- The double as an exact result. -/
def exact : Double → Exact
  | nan => .undefined
  | signed negative m => if m.isInfinite then .infinite negative else .finite negative m.value

theorem exact_infinity (negative : Bool) : (signed negative .infinity).exact = .infinite negative := by
  rw [exact, if_pos Magnitude.isInfinite_infinity]

theorem exact_of_finite (negative : Bool) {m : Magnitude} (h : m.isInfinite = false) :
    (signed negative m).exact = .finite negative m.value := by
  rw [exact, h, if_neg Bool.false_ne_true]

/-- A double is not a number, or infinite, or finite. -/
theorem exact_cases (x : Double) : x = nan ∨ (∃ negative, x = signed negative .infinity) ∨
    ∃ negative m, x = signed negative m ∧ m.isInfinite = false := by
  cases x with
  | nan => exact .inl rfl
  | signed negative m =>
    cases hinfinite : m.isInfinite with
    | true => exact .inr (.inl ⟨negative, by rw [Magnitude.eq_infinity_of_isInfinite hinfinite]⟩)
    | false => exact .inr (.inr ⟨negative, m, rfl, hinfinite⟩)

theorem exact_negate (x : Double) : x.negate.exact = x.exact.negate := by
  obtain rfl | ⟨s, rfl⟩ | ⟨s, m, rfl, hm⟩ := x.exact_cases
  · rfl
  · rw [negate, exact_infinity, exact_infinity, Exact.negate]
  · rw [negate, exact_of_finite _ hm, exact_of_finite _ hm, Exact.negate]

theorem signedValue_value (negative : Bool) (m : Magnitude) :
    Exact.signedValue negative m.value = (signedUnits negative m : ℚ) / Magnitude.scale := by
  cases negative with
  | false => rfl
  | true =>
    rw [Exact.signedValue, if_pos rfl, signedUnits, if_pos rfl, Magnitude.value, Int.cast_neg, neg_div]
    rfl

theorem roundsTo_signed (negative : Bool) (numerator : Nat) {denominator : Nat} (h : 0 < denominator) :
    (Exact.finite negative ((numerator : ℚ) / denominator / Magnitude.scale)).RoundsTo
      (signed negative (.nearest numerator denominator)) :=
  ⟨_, Magnitude.isNearest_nearest numerator h, rfl⟩

theorem roundsTo_ofUnits (zeroNegative : Bool) (units : Int) :
    (Exact.ofRat zeroNegative (units / Magnitude.scale)).RoundsTo (ofUnits zeroNegative units) := by
  have hscale := Magnitude.scale_pos
  rw [Exact.ofRat, ofUnits]
  by_cases hzero : units = 0
  · rw [hzero, if_pos rfl, Int.cast_zero, zero_div, if_pos rfl, abs_zero, ← Magnitude.value_zero]
    exact ⟨_, Magnitude.zero.isNearest_value, rfl⟩
  · have hne : (units : ℚ) / Magnitude.scale ≠ 0 := div_ne_zero (Int.cast_ne_zero.mpr hzero) hscale.ne'
    have hsign : (units : ℚ) / Magnitude.scale < 0 ↔ units < 0 := by
      rw [div_lt_iff₀ hscale, zero_mul, Int.cast_lt_zero]
    have habs : |(units : ℚ) / Magnitude.scale| = (units.natAbs : ℚ) / (1 : Nat) / Magnitude.scale := by
      rw [abs_div, abs_of_pos hscale, Nat.cast_one, div_one, Nat.cast_natAbs, Int.cast_abs]
    rw [if_neg hzero, if_neg hne, habs, decide_eq_decide.mpr hsign]
    exact roundsTo_signed _ _ Nat.one_pos

/-- An infinity, but where a factor or a dividend is zero there is no number. -/
theorem roundsTo_infinite_unless (zero : Prop) [Decidable zero] (negative : Bool) :
    (if zero then Exact.undefined else .infinite negative).RoundsTo
      (if decide zero then nan else signed negative .infinity) := by
  by_cases h : zero
  · rw [if_pos h, if_pos (decide_eq_true h)]
    exact rfl
  · rw [if_neg h, if_neg (by simpa using h)]
    exact rfl

/-! ### The operations -/

theorem add_roundsTo (x y : Double) : (x.exact.add y.exact).RoundsTo (x.add y) := by
  obtain rfl | ⟨s, rfl⟩ | ⟨s, m, rfl, hm⟩ := x.exact_cases
  · exact rfl
  · rw [exact_infinity]
    obtain rfl | ⟨t, rfl⟩ | ⟨t, n, rfl, hn⟩ := y.exact_cases
    · exact rfl
    · rw [exact_infinity, Exact.add, add, Magnitude.isInfinite_infinity, Bool.true_and, if_pos rfl]
      by_cases hsign : s = t
      · rw [if_pos hsign, if_neg (by simpa using hsign)]
        exact rfl
      · rw [if_neg hsign, if_pos (by simpa using hsign)]
        exact rfl
    · rw [exact_of_finite _ hn, add, Magnitude.isInfinite_infinity, hn, if_pos rfl, Bool.false_and,
        if_neg Bool.false_ne_true]
      exact rfl
  · rw [exact_of_finite _ hm]
    obtain rfl | ⟨t, rfl⟩ | ⟨t, n, rfl, hn⟩ := y.exact_cases
    · exact rfl
    · rw [exact_infinity, add, Magnitude.isInfinite_infinity, hm, if_neg Bool.false_ne_true, if_pos rfl]
      exact rfl
    · have hsum : Exact.signedValue s m.value + Exact.signedValue t n.value =
          (signedUnits s m + signedUnits t n : Int) / Magnitude.scale := by
        rw [signedValue_value, signedValue_value, ← add_div, Int.cast_add]
      rw [exact_of_finite _ hn, Exact.add, hsum, add, hm, hn, if_neg Bool.false_ne_true, if_neg Bool.false_ne_true]
      exact roundsTo_ofUnits _ _

theorem sub_roundsTo (x y : Double) : (x.exact.sub y.exact).RoundsTo (x.sub y) := by
  rw [Exact.sub, ← exact_negate]
  exact x.add_roundsTo y.negate

theorem mul_roundsTo (x y : Double) : (x.exact.mul y.exact).RoundsTo (x.mul y) := by
  obtain rfl | ⟨s, rfl⟩ | ⟨s, m, rfl, hm⟩ := x.exact_cases
  · exact rfl
  · rw [exact_infinity]
    obtain rfl | ⟨t, rfl⟩ | ⟨t, n, rfl, hn⟩ := y.exact_cases
    · exact rfl
    · rw [exact_infinity, mul, Magnitude.isInfinite_infinity, Bool.true_or, if_pos rfl, Magnitude.isZero_infinity]
      exact rfl
    · rw [exact_of_finite _ hn, Exact.mul, mul, Magnitude.isInfinite_infinity, Bool.true_or, if_pos rfl,
        Magnitude.isZero_infinity, Bool.false_or, n.isZero_eq_decide]
      exact roundsTo_infinite_unless _ _
  · rw [exact_of_finite _ hm]
    obtain rfl | ⟨t, rfl⟩ | ⟨t, n, rfl, hn⟩ := y.exact_cases
    · exact rfl
    · rw [exact_infinity, Exact.mul, mul, Magnitude.isInfinite_infinity, Bool.or_true, if_pos rfl,
        Magnitude.isZero_infinity, Bool.or_false, m.isZero_eq_decide]
      exact roundsTo_infinite_unless _ _
    · have hproduct : m.value * n.value = (m.units * n.units : Nat) / Magnitude.scale / Magnitude.scale := by
        rw [Magnitude.value, Magnitude.value, div_mul_div_comm, Nat.cast_mul, div_div]
      rw [exact_of_finite _ hn, Exact.mul, hproduct, mul, hm, hn, Bool.or_self, if_neg Bool.false_ne_true]
      exact roundsTo_signed _ _ (Nat.cast_pos.mp Magnitude.scale_pos)

end Double

end Reckoner
