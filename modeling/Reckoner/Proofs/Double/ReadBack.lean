import Mathlib
import Reckoner.Proofs.Double.Layout

/-!
# Reading back what is written

Every double is read back from its text, also one that is written with an exponent: the digits are
the same ones as around a point, and the exponent makes up for the place of the point. So doubles
are told apart by their texts.
-/

namespace Reckoner

namespace DecimalLayout

theorem digitsOf_ne_nil (n : Nat) : digitsOf n ≠ [] :=
  Nat.toDigits_ne_nil

theorem readExponent?_exponentText (layout : DecimalLayout) (exponent : Int) :
    Decimal.readExponent? (layout.exponentText exponent) = some exponent := by
  let digits := zeros (layout.exponentDigits - (digitsOf exponent.natAbs).length) ++ digitsOf exponent.natAbs
  have hempty : digits.isEmpty = false := by simp [digits, digitsOf_ne_nil]
  have hall : digits.all Char.isDigit = true :=
    List.all_eq_true.mpr (List.forall_mem_append.mpr ⟨isDigit_zeros _, isDigit_digitsOf _⟩)
  have hvalue : Decimal.valueOfDigits digits = exponent.natAbs :=
    (Decimal.valueOfDigits_zeros_append _ _).trans (Decimal.valueOfDigits_digitsOf _)
  by_cases hnegative : exponent < 0
  · have htext : layout.exponentText exponent = '-' :: digits := by
      rw [exponentText, if_pos hnegative]
      rfl
    rw [htext]
    simp only [Decimal.readExponent?, hempty, hall, hvalue, Bool.not_true, Bool.or_self, Bool.false_eq_true, if_false,
      Option.map_some, Option.some.injEq]
    omega
  · have htext : layout.exponentText exponent = '+' :: digits := by
      rw [exponentText, if_neg hnegative]
      rfl
    rw [htext]
    simp only [Decimal.readExponent?, hempty, hall, hvalue, Bool.not_true, Bool.or_self, Bool.false_eq_true, if_false,
      Option.some.injEq]
    omega

/-- With an exponent, the digits are read as they are and moved to their place. -/
theorem decimalRead?_scientific (layout : DecimalLayout) {digits : List Char} (hdigits : ∀ c ∈ digits, c.isDigit = true)
    (hne : digits ≠ []) (power : Int) :
    Decimal.read? (layout.scientific digits power) = some ⟨Decimal.valueOfDigits digits, power - digits.length⟩ := by
  obtain ⟨first, more, rfl⟩ := List.exists_cons_of_ne_nil hne
  obtain ⟨hfirst, hmore⟩ := List.forall_mem_cons.mp hdigits
  let ending := 'e' :: layout.exponentText (power - 1)
  have hwhole (rest : List Char) (hrest : ∀ c ∈ rest.head?, c.isDigit = false) :
      Decimal.spanDigits (first :: rest) = ([first], rest) :=
    spanDigits_append (List.forall_mem_singleton.mpr hfirst) hrest
  have hfraction : Decimal.spanDigits (more ++ ending) = (more, ending) :=
    spanDigits_append hmore (by simp [ending])
  have hexponent := layout.readExponent?_exponentText (power - 1)
  have hplace : (-more.length + (power - 1) : Int) = power - (first :: more).length := by
    rw [List.length_cons]
    omega
  rw [← hplace]
  by_cases hnone : more = []
  · subst hnone
    have htext : layout.scientific [first] power = first :: ending := rfl
    rw [htext, Decimal.read?, hwhole _ (by simp [ending])]
    simp [ending, hexponent, Decimal.ofDigits]
  · have htext : layout.scientific (first :: more) power = first :: '.' :: (more ++ ending) := by
      simp [scientific, ending, hnone]
    rw [htext, Decimal.read?, hwhole _ (by simp)]
    simp [hfraction, ending, hexponent, Decimal.ofDigits]

theorem exists_decimalRead?_text (layout : DecimalLayout) (hleast : layout.leastPower ≤ 0)
    (hgreatest : 0 ≤ layout.greatestPower) (d : Decimal) :
    ∃ read, Decimal.read? (layout.text d) = some read ∧ read.value = d.value := by
  rw [text_eq]
  split
  · obtain ⟨l, -, htext, hvalue⟩ := exists_literal_aroundPoint (isDigit_shownDigits d) (shownPower d)
    exact ⟨_, htext ▸ l.decimalRead?_text, hvalue.trans (value_shown d)⟩
  · rename_i hpower
    have hne : shownDigits d ≠ [] := by
      intro hnil
      -- Without digits the decimal is zero, and zero is laid out around a point.
      obtain ⟨count, -, hdigits⟩ := exists_digits_eq d
      have hzero : d.digits = 0 := by
        rw [hdigits, hnil]
        exact Nat.zero_mul _
      rw [shownPower, if_pos hzero] at hpower
      exact hpower ⟨hleast, hgreatest⟩
    exact ⟨_, layout.decimalRead?_scientific (isDigit_shownDigits d) hne _, value_shown d⟩

end DecimalLayout

namespace Double

/-- What reads as a decimal begins with a digit. -/
theorem isDigit_of_decimalRead? {c : Char} {text : List Char} {d : Decimal} (h : Decimal.read? (c :: text) = some d) :
    c.isDigit = true := by
  by_contra hc
  simp [Decimal.read?, Decimal.spanDigits, hc] at h

/-- What reads as a magnitude begins with a digit or is the name of infinity. -/
theorem isDigit_or_eq_of_readMagnitude? {c : Char} {text : List Char} {m : Magnitude}
    (h : readMagnitude? (c :: text) = some m) : c.isDigit = true ∨ c = 'i' := by
  rw [readMagnitude?] at h
  split at h
  · rename_i hinf
    exact .inr (List.cons.inj hinf).1
  · obtain ⟨d, hread, -⟩ := Option.map_eq_some_iff.mp h
    exact .inl (isDigit_of_decimalRead? hread)

theorem readMagnitude?_magnitudeText (m : Magnitude) : readMagnitude? (magnitudeText m) = some m := by
  cases hinfinite : m.isInfinite with
  | true =>
    rw [magnitudeText, if_pos hinfinite, readMagnitude?, if_pos rfl, Magnitude.eq_infinity_of_isInfinite hinfinite]
  | false =>
    obtain ⟨d, hd, hnearest⟩ := exists_decimal_magnitudeText hinfinite
    obtain ⟨read, hread, hvalue⟩ := layout.exists_decimalRead?_text (by decide) (by decide) d
    have hinf : layout.text d ≠ "inf".toList := by
      intro hinf
      have hdigit := isDigit_of_decimalRead? (hinf ▸ hread)
      exact absurd hdigit (by decide)
    rw [hd, readMagnitude?, if_neg hinf, hread, Option.map_some, Decimal.nearest_eq_of_value_eq hvalue, hnearest]

/-- What is written is read back. -/
theorem read?_text (x : Double) : read? x.text = some x := by
  cases x with
  | nan => rfl
  | signed negative m =>
    have hread := readMagnitude?_magnitudeText m
    cases negative with
    | true =>
      have hnan : '-' :: magnitudeText m ≠ "nan".toList := by simp
      rw [text, read?, if_neg hnan, hread, Option.map_some]
    | false =>
      have hother (c : Char) (rest : List Char) (hc : ¬(c.isDigit = true ∨ c = 'i')) : magnitudeText m ≠ c :: rest := by
        intro htext
        rw [htext] at hread
        exact hc (isDigit_or_eq_of_readMagnitude? hread)
      have hnan : magnitudeText m ≠ "nan".toList := hother 'n' ['a', 'n'] (by decide)
      rw [text, read?, if_neg hnan, hread, Option.map_some]
      exact fun rest => hother '-' rest (by decide)

theorem text_injective : Function.Injective text := by
  intro x y h
  have hread := read?_text x
  rw [h, read?_text y] at hread
  exact (Option.some.inj hread).symm

end Double

end Reckoner
