import Mathlib
import Reckoner.Proofs.Double.Layout
import Reckoner.Proofs.Double.Range
import Reckoner.Proofs.Parser.Lexical

/-!
# What literals denote

The digits of a literal denote a rational number by their places, and the literal is read as the
double nearest to it. The number is formed exactly, from all digits on both sides of the point, and
rounded once, so a digit arbitrarily far to the right can still decide between two neighbours. What
does not change the number, such as zeros at either end, does not change the double.
-/

namespace Reckoner

def digitValue (digit : Char) : Nat :=
  digit.toNat - '0'.toNat

/-- Before a point a digit counts a power of ten, one for each digit after it. -/
def wholeValue : List Char → ℚ
  | [] => 0
  | digit :: digits => digitValue digit * 10 ^ digits.length + wholeValue digits

/-- After a point a digit counts a tenth of what it would count before it, and so does all that
follows. -/
def fractionValue : List Char → ℚ
  | [] => 0
  | digit :: digits => (digitValue digit + fractionValue digits) / 10

namespace Literal

/-- The number that the digits denote by their places. -/
def denoted (l : Literal) : ℚ :=
  wholeValue l.whole + fractionValue l.fraction

/-- The literal with more zeros before its digits and after its fraction. -/
def padded (l : Literal) (leading trailing : Nat) : Literal where
  whole := List.replicate leading '0' ++ l.whole
  fraction := l.fraction ++ List.replicate trailing '0'
  whole_ne_nil := List.append_ne_nil_of_right_ne_nil _ l.whole_ne_nil
  isDigit_whole := List.forall_mem_append.mpr ⟨DecimalLayout.isDigit_zeros leading, l.isDigit_whole⟩
  isDigit_fraction := List.forall_mem_append.mpr ⟨l.isDigit_fraction, DecimalLayout.isDigit_zeros trailing⟩

/-- The parser for literals of this form, without or with a fraction. -/
def reader {ω : Type} (l : Literal) : Parser ω Double :=
  if l.fraction = [] then .integer else .floating

end Literal

/-! ### The exact value -/

namespace Decimal

theorem valueOfDigits_cons (digit : Char) (digits : List Char) :
    valueOfDigits (digit :: digits) = digitValue digit * 10 ^ digits.length + valueOfDigits digits := by
  have hsingle : valueOfDigits [digit] = digitValue digit := Nat.zero_add _
  rw [← hsingle, ← valueOfDigits_append, List.singleton_append]

theorem cast_valueOfDigits (digits : List Char) : (valueOfDigits digits : ℚ) = wholeValue digits := by
  induction digits with
  | nil => exact Nat.cast_zero
  | cons digit digits ih =>
    rw [valueOfDigits_cons, wholeValue, ← ih]
    push_cast
    rfl

theorem fractionValue_eq_div (digits : List Char) : fractionValue digits = valueOfDigits digits / 10 ^ digits.length := by
  induction digits with
  | nil => exact (zero_div _).symm
  | cons digit digits ih =>
    rw [fractionValue, ih, valueOfDigits_cons, List.length_cons, pow_succ]
    push_cast
    field_simp

theorem value_ofDigits_eq_denoted (l : Literal) : (ofDigits l.whole l.fraction).value = l.denoted := by
  rw [value_ofDigits, valueOfDigits_append, Literal.denoted, ← cast_valueOfDigits, fractionValue_eq_div, zpow_neg,
    zpow_natCast]
  push_cast
  field_simp

end Decimal

theorem Literal.denoted_padded (l : Literal) (leading trailing : Nat) : (l.padded leading trailing).denoted = l.denoted := by
  have hdigits : (l.padded leading trailing).whole ++ (l.padded leading trailing).fraction =
      List.replicate leading '0' ++ ((l.whole ++ l.fraction) ++ List.replicate trailing '0') := by
    simp only [padded, List.append_assoc]
  have hplaces : ((l.padded leading trailing).fraction.length : Int) = l.fraction.length + trailing := by
    simp only [padded, List.length_append, List.length_replicate, Nat.cast_add]
  rw [← Decimal.value_ofDigits_eq_denoted, ← Decimal.value_ofDigits_eq_denoted, Decimal.value_ofDigits,
    Decimal.value_ofDigits, hdigits, hplaces, Decimal.valueOfDigits_zeros_append, Decimal.valueOfDigits_append_zeros,
    neg_add, zpow_add₀ (by norm_num), zpow_neg _ (trailing : Int), zpow_natCast]
  push_cast
  field_simp

/-! ### Reading -/

/-- Rounding takes the exact value of a decimal. -/
theorem Decimal.nearest_eq_ofRat (d : Decimal) : d.nearest = .ofRat d.value := by
  rw [← Magnitude.isNearest_iff_eq_ofRat]
  have hscale := Magnitude.scale_pos.ne'
  have hvalue : ((d.numerator * Magnitude.scale : ℕ) : ℚ) / d.denominator / Magnitude.scale = d.value := by
    rw [Nat.cast_mul, mul_div_right_comm, mul_div_cancel_right₀ _ hscale, value_eq_div]
  have hnearest := Magnitude.isNearest_nearest (d.numerator * Magnitude.scale) d.denominator_pos
  rwa [hvalue] at hnearest

theorem Literal.value_eq_ofRat (l : Literal) : l.value = .signed false (.ofRat l.denoted) := by
  rw [value, Double.ofDigits, Decimal.nearest_eq_ofRat, Decimal.value_ofDigits_eq_denoted]

theorem Parser.Scans.run_to_end {ω α : Type} {p : Parser ω α} {scan : List Char → Option (α × List Char)}
    (h : p.Scans scan) {text : List Char} {value : α} (hscan : scan text = some (value, [])) :
    p.run (.ofString (String.ofList text)) = ⟨[], .returned (some ⟨value, text.toArray, text.length⟩)⟩ := by
  have hahead : (Cursor.ofString (String.ofList text)).ahead = text := by simp
  have hend : (Cursor.ofString (String.ofList text)).upTo [] = ⟨text.toArray, text.length⟩ := by
    rw [Cursor.upTo, hahead]
    simp [Cursor.ofString, Cursor.advance]
  rw [h.run (Cursor.inReach_ofString _), hahead, hscan, Option.map_some, Cursor.parsed, hend]
  rfl

/-- A literal is read to its end by the parser for its form. -/
theorem Literal.run_reader {ω : Type} (l : Literal) : (l.reader : Parser ω Double).run (.ofString (String.ofList l.text)) =
    ⟨[], .returned (some ⟨l.value, l.text.toArray, l.text.length⟩)⟩ := by
  by_cases hfraction : l.fraction = []
  · have hdigits : digitsAhead (l.whole ++ []) = some (l.whole, []) :=
      digitsAhead_append l.whole_ne_nil l.isDigit_whole (by simp)
    rw [List.append_nil] at hdigits
    rw [reader, if_pos hfraction]
    apply Parser.scans_integer.run_to_end
    rw [text_of_fraction_eq_nil hfraction, hdigits, value, hfraction]
    rfl
  · have hdigits : digitsAhead (l.whole ++ '.' :: l.fraction) = some (l.whole, '.' :: l.fraction) :=
      digitsAhead_append l.whole_ne_nil l.isDigit_whole (by simp)
    have hmore : digitsAhead (l.fraction ++ []) = some (l.fraction, []) :=
      digitsAhead_append hfraction l.isDigit_fraction (by simp)
    rw [List.append_nil] at hmore
    rw [reader, if_neg hfraction]
    apply Parser.scans_floating.run_to_end
    rw [text_of_fraction_ne_nil hfraction, hdigits]
    simp only [Option.bind_some, Parser.oneChar, beq_self_eq_true, if_true, hmore, Option.map_some, value]

/-- A literal is read as the double nearest to the number that all of its digits denote, and in the
middle as the even one. So the double depends on the number only, and grows with it; zeros at either
end do not count, and neither does a fraction of zeros. -/
theorem literal_rounded_once {ω : Type} :
    (∀ l : Literal, (l.reader : Parser ω Double).run (.ofString (String.ofList l.text)) =
      ⟨[], .returned (some ⟨.signed false (.ofRat l.denoted), l.text.toArray, l.text.length⟩)⟩) ∧
    (∀ (x : ℚ) (m : Magnitude), m.IsNearest x ↔ m = .ofRat x) ∧
    (∀ (x : ℚ) (parity : Nat), (∃ m : Magnitude, m.isInfinite = false ∧ m.value = x ∧ m.rank % 2 = parity) ↔
      ∃ significand exponent, Magnitude.CanonicalForm significand exponent ∧ significand * 2 ^ exponent = x ∧
        significand % 2 = parity) ∧
    (∀ x : ℚ, .ofRat x = Magnitude.infinity ↔ 2 ^ 1024 - 2 ^ 970 ≤ x) ∧
    (∀ x : ℚ, .ofRat x = Magnitude.zero ↔ x ≤ 2 ^ (-1075 : Int)) ∧
    (Monotone fun x => (Magnitude.ofRat x).value) ∧
    ∀ (l : Literal) (leading trailing : Nat), (l.padded leading trailing).denoted = l.denoted :=
  ⟨fun l => l.value_eq_ofRat ▸ l.run_reader, fun _ _ => Magnitude.isNearest_iff_eq_ofRat, Magnitude.finite_iff_canonicalForm,
    Magnitude.ofRat_eq_infinity_iff, Magnitude.ofRat_eq_zero_iff, Magnitude.monotone_value_ofRat, Literal.denoted_padded⟩

end Reckoner
