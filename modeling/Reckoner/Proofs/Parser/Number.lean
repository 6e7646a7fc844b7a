import Mathlib
import Reckoner.Expr.Grammar
import Reckoner.Proofs.Parser.Lexical

/-!
# Numbers by their offsets

Where a number begins and ends, told by offsets into the text. Spaces are passed over, then the
digits before the point are one run, the digits after it another one, and the spaces that follow are
passed over again. Each of these runs is as long as it can be, so what the scanners leave of the
text is the text from the end of a run on.
-/

namespace Reckoner

/-- The characters that count as digits. -/
def asciiDigits : List Char :=
  "0123456789".toList

theorem isDigit_iff_mem_asciiDigits {c : Char} : c.isDigit = true ↔ c ∈ asciiDigits := by
  constructor
  · intro hdigit
    have hbounds : 48 ≤ c.toNat ∧ c.toNat ≤ 57 := by
      simpa [Char.isDigit, UInt32.le_iff_toNat_le] using hdigit
    obtain ⟨hleast, hgreatest⟩ := hbounds
    have hc : c = Char.ofNat c.toNat := (Char.ofNat_toNat c).symm
    generalize c.toNat = n at hleast hgreatest hc
    subst hc
    interval_cases n <;> decide
  · intro hmem
    have hdigits : asciiDigits.all Char.isDigit = true := by decide
    exact List.all_eq_true.mp hdigits c hmem

theorem isDigit_eq_contains : Char.isDigit = asciiDigits.contains := by
  funext c
  rw [Bool.eq_iff_iff, List.contains_iff_mem]
  exact isDigit_iff_mem_asciiDigits

/-! ### Runs of characters -/

/-- Where the longest run of characters that pass the test ends, if it begins at the given offset. -/
def runEnd (test : Char → Bool) (text : Array Char) (start : Nat) : Nat :=
  start + ((text.toList.drop start).takeWhile test).length

section

variable {text : Array Char} {start stop : Nat}

theorem le_runEnd (test : Char → Bool) (text : Array Char) (start : Nat) : start ≤ runEnd test text start :=
  Nat.le_add_right _ _

theorem runEnd_le_size (test : Char → Bool) (h : start ≤ text.size) : runEnd test text start ≤ text.size := by
  have hsize : text.toList.length = text.size := Array.length_toList
  have hlength : ((text.toList.drop start).takeWhile test).length ≤ (text.toList.drop start).length :=
    (List.takeWhile_prefix test).length_le
  rw [List.length_drop, hsize] at hlength
  rw [runEnd]
  omega

theorem runEnd_eq_start_iff {test : Char → Bool} :
    runEnd test text start = start ↔ (text.toList.drop start).takeWhile test = [] := by
  rw [runEnd, ← List.length_eq_zero_iff]
  omega

theorem lt_size_of_runEnd_ne {test : Char → Bool} (h : runEnd test text start ≠ start) : start < text.size := by
  by_contra hpast
  have hnone : text.toList.drop start = [] := List.drop_eq_nil_of_le (Nat.le_of_not_lt hpast)
  rw [Ne, runEnd_eq_start_iff, hnone] at h
  exact h rfl

/-- After a run comes what dropping its characters leaves. -/
theorem drop_runEnd (test : Char → Bool) (text : Array Char) (start : Nat) :
    text.toList.drop (runEnd test text start) = (text.toList.drop start).dropWhile test := by
  have hsplit := List.takeWhile_append_dropWhile (p := test) (l := text.toList.drop start)
  rw [runEnd, ← List.drop_drop]
  nth_rewrite 2 [← hsplit]
  exact List.drop_left

theorem afterSpaces_drop (text : Array Char) (start : Nat) :
    afterSpaces (text.toList.drop start) = text.toList.drop (runEnd (· == ' ') text start) :=
  (drop_runEnd _ text start).symm

theorem toList_extract (text : Array Char) (start stop : Nat) :
    (text.extract start stop).toList = (text.toList.drop start).take (stop - start) := by
  rw [Array.toList_extract, List.extract_eq_take_drop]

/-- A cursor that is moved up to the text from an offset on stands at this offset. -/
theorem Cursor.upTo_drop (hstart : start ≤ stop) (hstop : stop ≤ text.size) :
    Cursor.upTo ⟨text, start⟩ (text.toList.drop stop) = ⟨text, stop⟩ := by
  have hahead : (⟨text, start⟩ : Cursor).ahead.length = text.size - start := by
    rw [ahead_of_nonneg (Int.natCast_nonneg start), List.length_drop, Array.length_toList, Int.toNat_natCast]
  have hmoved : (start : Int) + (text.size - start - (text.size - stop) : Nat) = stop := by omega
  rw [upTo, hahead, List.length_drop, Array.length_toList, advance, hmoved]

/-! ### Literals -/

/-- Where a literal ends, given where the digits before its point end: a point counts only with a
digit after it. -/
def literalEnd (text : Array Char) (wholeEnd : Nat) : Nat :=
  if text[wholeEnd]? = some '.' ∧ ∃ digit ∈ asciiDigits, text[wholeEnd + 1]? = some digit then
    runEnd asciiDigits.contains text (wholeEnd + 1)
  else wholeEnd

theorem takeWhile_drop_eq_nil_iff :
    (text.toList.drop start).takeWhile Char.isDigit = [] ↔ ¬∃ digit ∈ asciiDigits, text[start]? = some digit := by
  rw [← Array.getElem?_toList, ← List.head?_drop]
  cases text.toList.drop start with
  | nil => simp
  | cons c rest =>
    by_cases hc : c.isDigit = true
    · simp [hc, isDigit_iff_mem_asciiDigits.mp hc]
    · simp [hc, mt isDigit_iff_mem_asciiDigits.mpr hc]

theorem fractionAhead_drop (text : Array Char) (stop : Nat) :
    fractionAhead (text.toList.drop stop) =
      if text[stop]? = some '.' then (text.toList.drop (stop + 1)).takeWhile Char.isDigit else [] := by
  have hnext : text.toList.drop (stop + 1) = (text.toList.drop stop).tail := List.tail_drop.symm
  rw [hnext, ← Array.getElem?_toList, ← List.head?_drop]
  cases text.toList.drop stop with
  | nil => rfl
  | cons c rest =>
    by_cases hc : c = '.'
    · subst hc
      rfl
    · rw [fractionAhead, List.head?_cons, if_neg (by simpa using hc)]
      exact fun _ hpoint => hc (List.cons.inj hpoint).1

theorem readLiteral?_drop_eq_none (h : runEnd asciiDigits.contains text start = start) :
    readLiteral? (text.toList.drop start) = none := by
  have hnone := runEnd_eq_start_iff.mp h
  rw [← isDigit_eq_contains] at hnone
  exact dif_pos hnone

/-- What a literal has after the digits before its point is as long as the way to its end. -/
theorem literalEnd_eq (text : Array Char) (wholeEnd : Nat) :
    literalEnd text wholeEnd = wholeEnd + (if fractionAhead (text.toList.drop wholeEnd) = [] then []
      else '.' :: fractionAhead (text.toList.drop wholeEnd)).length := by
  rw [literalEnd, fractionAhead_drop]
  by_cases hpoint : text[wholeEnd]? = some '.'
  · rw [if_pos hpoint]
    by_cases hdigit : ∃ digit ∈ asciiDigits, text[wholeEnd + 1]? = some digit
    · have hfraction := mt takeWhile_drop_eq_nil_iff.mp (not_not_intro hdigit)
      rw [if_pos ⟨hpoint, hdigit⟩, if_neg hfraction, List.length_cons, runEnd, isDigit_eq_contains]
      omega
    · have hfraction := takeWhile_drop_eq_nil_iff.mpr hdigit
      rw [if_neg fun h => hdigit h.2, if_pos hfraction, List.length_nil, Nat.add_zero]
  · rw [if_neg fun h => hpoint h.1, if_neg hpoint, if_pos rfl, List.length_nil, Nat.add_zero]

/-- The literal that begins at an offset with a digit is the text up to its end. -/
theorem exists_readLiteral?_drop (h : runEnd asciiDigits.contains text start ≠ start) :
    ∃ l : Literal, l.text = (text.extract start (literalEnd text (runEnd asciiDigits.contains text start))).toList ∧
      readLiteral? (text.toList.drop start) =
        some (l, text.toList.drop (literalEnd text (runEnd asciiDigits.contains text start))) := by
  have hne : (text.toList.drop start).takeWhile Char.isDigit ≠ [] := by
    rw [isDigit_eq_contains]
    exact mt runEnd_eq_start_iff.mpr h
  have hprefix := prefix_of_literalAhead hne
  have hread := readLiteral?_of_ne_nil hne
  have hend : literalEnd text (runEnd asciiDigits.contains text start) = start + (literalAhead _ hne).text.length := by
    rw [literalEnd_eq, drop_runEnd, ← isDigit_eq_contains, runEnd, Literal.text, List.length_append,
      Nat.add_assoc]
    rfl
  refine ⟨literalAhead _ hne, ?_, ?_⟩
  · rw [toList_extract, hend, Nat.add_sub_cancel_left]
    exact List.prefix_iff_eq_take.mp hprefix
  · rw [hread, hend, List.drop_drop]

theorem literalEnd_le_size (h : start ≤ text.size) : literalEnd text start ≤ text.size := by
  rw [literalEnd]
  split
  · rename_i hpoint
    obtain ⟨hlt, -⟩ := Array.getElem?_eq_some_iff.mp hpoint.1
    exact runEnd_le_size _ hlt
  · exact h

theorem le_literalEnd (text : Array Char) (start : Nat) : start ≤ literalEnd text start := by
  rw [literalEnd_eq]
  exact Nat.le_add_right _ _

end

/-- A number is the longest literal that begins after the spaces at an offset, and it stands for the
double that is read from this literal. The spaces after it are passed over as well. -/
theorem number_reads_longest_literal {ω : Type} (text : Array Char) (start : Nat) :
    let first := runEnd (· == ' ') text start
    let wholeEnd := runEnd asciiDigits.contains text first
    let lexemeEnd := literalEnd text wholeEnd
    let lexeme := (text.extract first lexemeEnd).toList
    (wholeEnd = first → (Grammar.number : Parser ω Expr).run ⟨text, start⟩ = ⟨[], .returned none⟩) ∧
    (wholeEnd ≠ first → ∃ value, Double.read? lexeme = some value ∧
      (Grammar.number : Parser ω Expr).run ⟨text, start⟩ =
        ⟨[], .returned (some ⟨.number value, text, runEnd (· == ' ') text lexemeEnd⟩)⟩ ∧
      ∃ whole fraction, whole ≠ [] ∧ (∀ c ∈ whole ++ fraction, c ∈ asciiDigits) ∧
        lexeme = whole ++ if fraction = [] then [] else '.' :: fraction) := by
  intro first wholeEnd lexemeEnd lexeme
  have hc : (⟨text, start⟩ : Cursor).InReach := Cursor.inReach_of_nonneg (Int.natCast_nonneg start)
  have hahead : (⟨text, start⟩ : Cursor).ahead = text.toList.drop start := Cursor.ahead_of_nonneg (Int.natCast_nonneg start)
  have hrun : (Grammar.number : Parser ω Expr).run ⟨text, start⟩ = _ := Parser.scans_number.run hc
  rw [hahead, readNumber?, afterSpaces_drop] at hrun
  constructor
  · intro hnone
    rw [hrun, readLiteral?_drop_eq_none hnone]
    rfl
  · intro hdigit
    obtain ⟨l, htext, hread⟩ := exists_readLiteral?_drop hdigit
    have hvalue : Double.read? lexeme = some l.value := by
      rw [← l.read?_text, htext]
    have hstart : start ≤ lexemeEnd :=
      (le_runEnd _ text start).trans ((le_runEnd _ text first).trans (le_literalEnd text wholeEnd))
    have hsize : lexemeEnd ≤ text.size :=
      literalEnd_le_size (runEnd_le_size _ (Nat.le_of_lt (lt_size_of_runEnd_ne hdigit)))
    have hrest := Cursor.upTo_drop (hstart.trans (le_runEnd (· == ' ') text lexemeEnd)) (runEnd_le_size _ hsize)
    refine ⟨l.value, hvalue, ?_, l.whole, l.fraction, l.whole_ne_nil, ?_, htext.symm⟩
    · rw [hrun, hread, ← hrest, ← afterSpaces_drop]
      rfl
    · have hdigits := List.forall_mem_append.mpr ⟨l.isDigit_whole, l.isDigit_fraction⟩
      exact fun c hc => isDigit_iff_mem_asciiDigits.mp (hdigits c hc)

end Reckoner
