import Mathlib
import Reckoner.Double.Printer
import Reckoner.Proofs.Double.Rounding
import Reckoner.Proofs.Text.Literal

/-!
# What the text of a double is read as

A decimal that is laid out around a point is a literal with a fraction and with the same value,
whatever zeros are left out or put in. As the decimal that a finite double is written as is rounded
to this double, its text is then a literal that stands for the double again. Every other text of a
double has a character in it that no literal has.
-/

namespace Reckoner

namespace Decimal

/-! ### Values of digits -/

theorem valueOfDigits_append (digits more : List Char) :
    valueOfDigits (digits ++ more) = valueOfDigits digits * 10 ^ more.length + valueOfDigits more := by
  have happend := Nat.ofDigitChars_append (b := 10) (l := digits) (m := more) 0
  rw [Nat.ofDigitChars_eq_ofDigitChars_zero (l := more)] at happend
  rw [Nat.mul_comm]
  exact happend

theorem valueOfDigits_zeros (count : Nat) : valueOfDigits (List.replicate count '0') = 0 := by
  have hzeros : Nat.ofDigitChars 10 (List.replicate count '0') 0 = 10 ^ count * 0 := Nat.ofDigitChars_replicate_zero
  exact hzeros.trans (Nat.mul_zero _)

theorem valueOfDigits_zeros_append (count : Nat) (digits : List Char) :
    valueOfDigits (List.replicate count '0' ++ digits) = valueOfDigits digits := by
  rw [valueOfDigits_append, valueOfDigits_zeros, Nat.zero_mul, Nat.zero_add]

theorem valueOfDigits_append_zeros (digits : List Char) (count : Nat) :
    valueOfDigits (digits ++ List.replicate count '0') = valueOfDigits digits * 10 ^ count := by
  rw [valueOfDigits_append, valueOfDigits_zeros, Nat.add_zero, List.length_replicate]

theorem valueOfDigits_digitsOf (n : Nat) : valueOfDigits (DecimalLayout.digitsOf n) = n :=
  Nat.ofDigitChars_ten_toDigits

theorem value_ofDigits (whole fraction : List Char) :
    (ofDigits whole fraction).value = valueOfDigits (whole ++ fraction) * 10 ^ (-fraction.length : Int) :=
  rfl

end Decimal

namespace DecimalLayout

theorem exists_eq_withoutTrailingZeros_append (digits : List Char) :
    ∃ count, digits = withoutTrailingZeros digits ++ zeros count := by
  refine ⟨(digits.reverse.takeWhile (· == '0')).length, ?_⟩
  have hzeros : digits.reverse.takeWhile (· == '0') = zeros (digits.reverse.takeWhile (· == '0')).length :=
    List.eq_replicate_of_mem fun c hc => by simpa using List.mem_takeWhile_imp hc
  have hsplit := congrArg List.reverse (List.takeWhile_append_dropWhile (p := (· == '0')) (l := digits.reverse))
  rw [List.reverse_append, List.reverse_reverse, hzeros] at hsplit
  rw [zeros, List.reverse_replicate] at hsplit
  exact hsplit.symm

theorem isDigit_withoutTrailingZeros {digits : List Char} (h : ∀ c ∈ digits, c.isDigit = true) :
    ∀ c ∈ withoutTrailingZeros digits, c.isDigit = true := by
  obtain ⟨count, hcount⟩ := exists_eq_withoutTrailingZeros_append digits
  intro c hc
  apply h c
  rw [hcount]
  exact List.mem_append_left _ hc

theorem isDigit_zeros (count : Nat) : ∀ c ∈ zeros count, c.isDigit = true := by
  intro c hc
  rw [List.eq_of_mem_replicate hc]
  rfl

/-- The digits before and after the point, if there are any. -/
def wholePart (digits : List Char) (power : Int) : List Char :=
  digits.take power.toNat ++ zeros (power.toNat - digits.length)

def fractionPart (digits : List Char) (power : Int) : List Char :=
  zeros (-power).toNat ++ digits.drop power.toNat

theorem value_parts (digits : List Char) (power : Int) :
    (Decimal.ofDigits (wholePart digits power) (fractionPart digits power)).value =
      Decimal.valueOfDigits digits * 10 ^ (power - digits.length) := by
  rw [Decimal.value_ofDigits, wholePart, fractionPart, zeros, zeros]
  by_cases hpower : power ≤ 0
  · have hwhole : power.toNat = 0 := by omega
    have hlength : (-((-power).toNat + digits.length : Nat) : Int) = power - digits.length := by omega
    rw [hwhole, List.take_zero, List.drop_zero, Nat.zero_sub, List.replicate_zero, List.append_nil, List.nil_append,
      Decimal.valueOfDigits_zeros_append, List.length_append, List.length_replicate, hlength]
  · have hfraction : (-power).toNat = 0 := by omega
    rw [hfraction, List.replicate_zero, List.nil_append]
    by_cases hinside : power.toNat ≤ digits.length
    · have hlength : (-(digits.length - power.toNat : Nat) : Int) = power - digits.length := by omega
      rw [Nat.sub_eq_zero_of_le hinside, List.replicate_zero, List.append_nil, List.take_append_drop,
        List.length_drop, hlength]
    · have hbeyond : digits.length ≤ power.toNat := by omega
      have hlength : power - digits.length = (power.toNat - digits.length : Nat) := by omega
      rw [List.take_of_length_le hbeyond, List.drop_of_length_le hbeyond, List.append_nil,
        Decimal.valueOfDigits_append_zeros, hlength, zpow_natCast]
      simp

/-- A side of the point with a zero on it if nothing else is there. -/
def orZero (digits : List Char) : List Char :=
  if digits.isEmpty then ['0'] else digits

theorem aroundPoint_eq (digits : List Char) (power : Int) :
    aroundPoint digits power = orZero (wholePart digits power) ++ '.' :: orZero (fractionPart digits power) :=
  rfl

theorem orZero_ne_nil (digits : List Char) : orZero digits ≠ [] := by
  cases digits <;> exact List.cons_ne_nil _ _

theorem isDigit_orZero {digits : List Char} (h : ∀ c ∈ digits, c.isDigit = true) :
    ∀ c ∈ orZero digits, c.isDigit = true := by
  cases digits with
  | nil => exact List.forall_mem_singleton.mpr rfl
  | cons => exact h

theorem value_orZero (whole fraction : List Char) :
    (Decimal.ofDigits (orZero whole) (orZero fraction)).value = (Decimal.ofDigits whole fraction).value := by
  have hwhole (digits : List Char) :
      Decimal.valueOfDigits (orZero whole ++ digits) = Decimal.valueOfDigits (whole ++ digits) := by
    cases whole with
    | nil => exact Decimal.valueOfDigits_zeros_append 1 digits
    | cons => rfl
  rw [Decimal.value_ofDigits, Decimal.value_ofDigits, hwhole]
  cases fraction with
  | nil =>
    have hzero : Decimal.valueOfDigits (whole ++ ['0']) = Decimal.valueOfDigits whole * 10 ^ 1 :=
      Decimal.valueOfDigits_append_zeros whole 1
    rw [orZero, List.isEmpty_nil, if_pos rfl, hzero, List.append_nil]
    simp
  | cons => rfl

theorem exists_literal_aroundPoint {digits : List Char} (hdigits : ∀ c ∈ digits, c.isDigit = true) (power : Int) :
    ∃ l : Literal, l.fraction ≠ [] ∧ aroundPoint digits power = l.text ∧
      (Decimal.ofDigits l.whole l.fraction).value = Decimal.valueOfDigits digits * 10 ^ (power - digits.length) := by
  have hwhole : ∀ c ∈ wholePart digits power, c.isDigit = true :=
    List.forall_mem_append.mpr ⟨fun c hc => hdigits c (List.mem_of_mem_take hc), isDigit_zeros _⟩
  have hfraction : ∀ c ∈ fractionPart digits power, c.isDigit = true :=
    List.forall_mem_append.mpr ⟨isDigit_zeros _, fun c hc => hdigits c (List.mem_of_mem_drop hc)⟩
  let l : Literal := {
    whole := orZero (wholePart digits power)
    fraction := orZero (fractionPart digits power)
    whole_ne_nil := orZero_ne_nil _
    isDigit_whole := isDigit_orZero hwhole
    isDigit_fraction := isDigit_orZero hfraction
  }
  have hne : l.fraction ≠ [] := orZero_ne_nil _
  refine ⟨l, hne, ?_, ?_⟩
  · rw [aroundPoint_eq, Literal.text_of_fraction_ne_nil hne]
  · exact (value_orZero _ _).trans (value_parts digits power)

/-- The digits of a decimal that are laid out. -/
def shownDigits (d : Decimal) : List Char :=
  withoutTrailingZeros (digitsOf d.digits)

/-- The power of ten of the decimal with its digits behind the point. -/
def shownPower (d : Decimal) : Int :=
  if d.digits = 0 then 0 else (digitsOf d.digits).length + d.exponent

theorem text_eq (layout : DecimalLayout) (d : Decimal) : layout.text d =
    if layout.leastPower ≤ shownPower d ∧ shownPower d ≤ layout.greatestPower
    then aroundPoint (shownDigits d) (shownPower d) else layout.scientific (shownDigits d) (shownPower d) :=
  rfl

theorem isDigit_digitsOf (n : Nat) : ∀ c ∈ digitsOf n, c.isDigit = true :=
  fun _ hc => Nat.isDigit_of_mem_toDigits (by decide) (by decide) hc

theorem isDigit_shownDigits (d : Decimal) : ∀ c ∈ shownDigits d, c.isDigit = true :=
  isDigit_withoutTrailingZeros (isDigit_digitsOf d.digits)

theorem exists_digits_eq (d : Decimal) : ∃ count, digitsOf d.digits = shownDigits d ++ zeros count ∧
    d.digits = Decimal.valueOfDigits (shownDigits d) * 10 ^ count := by
  obtain ⟨count, hcount⟩ := exists_eq_withoutTrailingZeros_append (digitsOf d.digits)
  refine ⟨count, hcount, ?_⟩
  calc d.digits = Decimal.valueOfDigits (digitsOf d.digits) := (Decimal.valueOfDigits_digitsOf d.digits).symm
    _ = Decimal.valueOfDigits (shownDigits d ++ zeros count) := congrArg Decimal.valueOfDigits hcount
    _ = Decimal.valueOfDigits (shownDigits d) * 10 ^ count := Decimal.valueOfDigits_append_zeros _ count

/-- Laying out loses nothing but zeros. -/
theorem value_shown (d : Decimal) :
    Decimal.valueOfDigits (shownDigits d) * 10 ^ (shownPower d - (shownDigits d).length) = d.value := by
  obtain ⟨count, hcount, hunscaled⟩ := exists_digits_eq d
  by_cases hzero : d.digits = 0
  · have hnone : Decimal.valueOfDigits (shownDigits d) = 0 := by
      rw [hzero] at hunscaled
      exact (Nat.mul_eq_zero.mp hunscaled.symm).resolve_right (Nat.pow_pos (by decide)).ne'
    rw [Decimal.value, hnone, hzero, Nat.cast_zero, zero_mul, zero_mul]
  · have hlength : (digitsOf d.digits).length = (shownDigits d).length + count := by
      rw [hcount, List.length_append, zeros, List.length_replicate]
    have hpower : shownPower d - (shownDigits d).length = count + d.exponent := by
      rw [shownPower, if_neg hzero, hlength]
      omega
    rw [Decimal.value, hpower, hunscaled, zpow_add₀ (by norm_num), zpow_natCast]
    push_cast
    ring

/-- A decimal that is laid out around a point is a literal with the same value; otherwise there is
an exponent. -/
theorem exists_literal_or_mem_text (layout : DecimalLayout) (d : Decimal) :
    (∃ l : Literal, l.fraction ≠ [] ∧ layout.text d = l.text ∧
      (Decimal.ofDigits l.whole l.fraction).value = d.value) ∨ 'e' ∈ layout.text d := by
  rw [text_eq]
  split
  · obtain ⟨l, hne, htext, hvalue⟩ := exists_literal_aroundPoint (isDigit_shownDigits d) (shownPower d)
    exact .inl ⟨l, hne, htext, hvalue.trans (value_shown d)⟩
  · right
    simp [scientific]

end DecimalLayout

namespace Double

theorem nearest_zero : (⟨0, 0⟩ : Decimal).nearest = .zero := by
  have hread := Magnitude.zero.nearest_units_mul (Decimal.denominator_pos ⟨0, 0⟩)
  rw [Magnitude.units_zero, Nat.zero_mul] at hread
  rw [Decimal.nearest, Decimal.numerator_of_nonpos (Int.le_refl 0), Nat.zero_mul]
  exact hread

/-- A finite magnitude is written as a decimal that is rounded to it. -/
theorem exists_decimal_magnitudeText {m : Magnitude} (h : m.isInfinite = false) :
    ∃ d, magnitudeText m = layout.text d ∧ d.nearest = m := by
  rw [magnitudeText, h, if_neg Bool.false_ne_true]
  by_cases hzero : m.isZero = true
  · rw [if_pos hzero, Magnitude.eq_zero_of_isZero hzero]
    exact ⟨_, rfl, nearest_zero⟩
  · rw [if_neg hzero]
    exact ⟨_, rfl, m.nearest_shortest⟩

theorem exists_literal_or_mem_magnitudeText (m : Magnitude) :
    (∃ l : Literal, l.fraction ≠ [] ∧ magnitudeText m = l.text ∧ l.value = signed false m) ∨
      ∃ c ∈ magnitudeText m, c ∈ ['i', 'e'] := by
  cases hinfinite : m.isInfinite with
  | true =>
    rw [magnitudeText, if_pos hinfinite]
    exact .inr ⟨'i', by decide, by decide⟩
  | false =>
    obtain ⟨d, hd, hnearest⟩ := exists_decimal_magnitudeText hinfinite
    rw [hd]
    obtain ⟨l, hne, htext, hvalue⟩ | hmem := layout.exists_literal_or_mem_text d
    · refine .inl ⟨l, hne, htext, ?_⟩
      rw [Literal.value, ofDigits, Decimal.nearest_eq_of_value_eq hvalue, hnearest]
    · exact .inr ⟨'e', hmem, by decide⟩

/-- The text of a double is a literal that stands for it, or it has a character that no literal has.
-/
theorem exists_literal_or_mem_text (x : Double) :
    (∃ l : Literal, l.fraction ≠ [] ∧ x.text = l.text ∧ l.value = x) ∨ ∃ c ∈ x.text, c ∈ ['n', '-', 'i', 'e'] := by
  cases x with
  | nan => exact .inr ⟨'n', by decide, by decide⟩
  | signed negative m =>
    cases negative with
    | true => exact .inr ⟨'-', List.mem_cons_self, by decide⟩
    | false =>
      apply (exists_literal_or_mem_magnitudeText m).imp_right
      rintro ⟨c, hc, hletter⟩
      exact ⟨c, hc, List.mem_of_mem_drop (i := 2) hletter⟩

end Double

end Reckoner
