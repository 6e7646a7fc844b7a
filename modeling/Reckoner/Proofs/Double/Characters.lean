import Mathlib
import Reckoner.Proofs.Double.Layout

/-!
# The characters of printed numbers

The text of a double is made of digits and a few other characters, whether it is laid out around a
point or with an exponent, or names an infinity or what is not a number.
-/

namespace Reckoner

/-- The characters that the text of a double is made of. -/
def isDoubleChar (c : Char) : Bool :=
  c.isDigit || ['.', 'e', '+', '-', 'i', 'n', 'f', 'a'].contains c

theorem isDoubleChar_of_isDigit {c : Char} (h : c.isDigit = true) : isDoubleChar c = true := by
  rw [isDoubleChar, h, Bool.true_or]

namespace DecimalLayout

theorem isDoubleChar_aroundPoint {digits : List Char} (hdigits : ∀ c ∈ digits, c.isDigit = true) (power : Int) :
    ∀ c ∈ aroundPoint digits power, isDoubleChar c = true := by
  obtain ⟨l, -, htext, -⟩ := exists_literal_aroundPoint hdigits power
  rw [htext]
  intro c hc
  obtain hdigit | rfl := l.isDigit_or_eq_point hc
  · exact isDoubleChar_of_isDigit hdigit
  · rfl

theorem isDoubleChar_exponentText (layout : DecimalLayout) (exponent : Int) :
    ∀ c ∈ layout.exponentText exponent, isDoubleChar c = true := by
  have hsign : isDoubleChar (if exponent < 0 then '-' else '+') = true := by
    split <;> rfl
  have hdigits : ∀ c ∈ digitsOf exponent.natAbs, isDoubleChar c = true :=
    fun c hc => isDoubleChar_of_isDigit (isDigit_digitsOf _ c hc)
  rw [exponentText, List.cons_append]
  refine List.forall_mem_cons.mpr ⟨hsign, List.forall_mem_append.mpr ⟨?_, hdigits⟩⟩
  exact fun c hc => isDoubleChar_of_isDigit (isDigit_zeros _ c hc)

theorem isDoubleChar_scientific (layout : DecimalLayout) {digits : List Char}
    (hdigits : ∀ c ∈ digits, c.isDigit = true) (power : Int) :
    ∀ c ∈ layout.scientific digits power, isDoubleChar c = true := by
  have hfirst : ∀ c ∈ digits.take 1, isDoubleChar c = true :=
    fun c hc => isDoubleChar_of_isDigit (hdigits c (List.mem_of_mem_take hc))
  have hrest : ∀ c ∈ digits.drop 1, isDoubleChar c = true :=
    fun c hc => isDoubleChar_of_isDigit (hdigits c (List.mem_of_mem_drop hc))
  rw [scientific]
  refine List.forall_mem_append.mpr ⟨List.forall_mem_append.mpr ⟨hfirst, ?_⟩, ?_⟩
  · split
    · exact fun c hc => absurd hc List.not_mem_nil
    · exact List.forall_mem_cons.mpr ⟨rfl, hrest⟩
  · exact List.forall_mem_cons.mpr ⟨rfl, layout.isDoubleChar_exponentText _⟩

theorem isDoubleChar_text (layout : DecimalLayout) (d : Decimal) : ∀ c ∈ layout.text d, isDoubleChar c = true := by
  rw [text_eq]
  split
  · exact isDoubleChar_aroundPoint (isDigit_shownDigits d) _
  · exact layout.isDoubleChar_scientific (isDigit_shownDigits d) _

end DecimalLayout

namespace Double

theorem isDoubleChar_magnitudeText (m : Magnitude) : ∀ c ∈ magnitudeText m, isDoubleChar c = true := by
  rw [magnitudeText]
  split
  · simp [isDoubleChar]
  · exact layout.isDoubleChar_text _

theorem isDoubleChar_text (x : Double) : ∀ c ∈ x.text, isDoubleChar c = true := by
  cases x with
  | nan => simp [text, isDoubleChar]
  | signed negative m =>
    cases negative with
    | true => exact List.forall_mem_cons.mpr ⟨rfl, isDoubleChar_magnitudeText m⟩
    | false => exact isDoubleChar_magnitudeText m

end Double

end Reckoner
