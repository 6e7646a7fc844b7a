import Mathlib
import Reckoner.Text.Blank
import Reckoner.Text.Lines

/-!
# Trimmed lines of a stream

What stands on a line does not depend on how the line ends, and trimming it takes off the blanks
around a text that has none at its ends, whichever and however many they are. The end of a line is
itself a blank, so it goes with them.
-/

namespace Reckoner

/-! ### Trimming -/

theorem trim_blank_append {margin : List Char} (h : ∀ c ∈ margin, isBlank c = true) (text : List Char) :
    trim (margin ++ text) = trim text := by
  rw [trim, trim, List.dropWhile_append_of_pos h]

theorem trim_append_blank {margin : List Char} (h : ∀ c ∈ margin, isBlank c = true) (text : List Char) :
    trim (text ++ margin) = trim text := by
  have hmargin : ∀ c ∈ margin.reverse, isBlank c = true := fun c hc => h c (List.mem_reverse.mp hc)
  rw [trim, trim, List.dropWhile_append]
  split
  · -- The text is blank as well, so all of it is taken off from the left.
    rename_i hblank
    rw [List.isEmpty_iff.mp hblank, List.dropWhile_eq_nil_iff.mpr h]
  · rw [List.reverse_append, List.dropWhile_append_of_pos hmargin]

theorem trim_eq_self {text : List Char} (hhead : ∀ c ∈ text.head?, isBlank c = false)
    (hlast : ∀ c ∈ text.getLast?, isBlank c = false) : trim text = text := by
  have hkept {text : List Char} (h : ∀ c ∈ text.head?, isBlank c = false) : text.dropWhile isBlank = text := by
    cases text with
    | nil => rfl
    | cons c text => exact List.dropWhile_cons_of_neg (by rw [h c rfl]; nofun)
  rw [← List.head?_reverse] at hlast
  rw [trim, hkept hhead, hkept hlast, List.reverse_reverse]

/-- A text without blanks at its ends is what trimming leaves of it with blanks around it. -/
theorem trim_surrounded {before text after : List Char} (hbefore : ∀ c ∈ before, isBlank c = true)
    (hafter : ∀ c ∈ after, isBlank c = true) (hhead : ∀ c ∈ text.head?, isBlank c = false)
    (hlast : ∀ c ∈ text.getLast?, isBlank c = false) : trim (before ++ text ++ after) = text := by
  rw [trim_append_blank hafter, trim_blank_append hbefore, trim_eq_self hhead hlast]

theorem trim_isPrefix_dropWhile (text : List Char) : trim text <+: text.dropWhile isBlank := by
  rw [trim, ← List.reverse_suffix, List.reverse_reverse]
  exact List.dropWhile_suffix _

theorem mem_of_mem_trim {text : List Char} {c : Char} (h : c ∈ trim text) : c ∈ text :=
  (List.dropWhile_suffix _).mem ((trim_isPrefix_dropWhile text).mem h)

theorem isBlank_head?_trim (text : List Char) : ∀ c ∈ (trim text).head?, isBlank c = false := by
  intro c hc
  obtain ⟨rest, htrim⟩ := List.head?_eq_some_iff.mp hc
  have hprefix := trim_isPrefix_dropWhile text
  rw [htrim] at hprefix
  have hhead : (text.dropWhile isBlank).head? = some c :=
    List.head?_eq_some_iff.mpr ⟨_, (List.prefix_iff_eq_append.mp hprefix).symm⟩
  have hnot := List.head?_dropWhile_not isBlank text
  rw [hhead] at hnot
  simpa using hnot

theorem isBlank_getLast?_trim (text : List Char) : ∀ c ∈ (trim text).getLast?, isBlank c = false := by
  intro c hc
  rw [trim, List.getLast?_reverse] at hc
  have hnot := List.head?_dropWhile_not isBlank (text.dropWhile isBlank).reverse
  rw [hc] at hnot
  simpa using hnot

theorem trim_of_blank {text : List Char} (h : ∀ c ∈ text, isBlank c = true) : trim text = [] := by
  have htrim := trim_append_blank h []
  rwa [List.nil_append] at htrim

theorem trim_line (line : List Char) : trim (line ++ ['\n']) = trim line :=
  trim_append_blank (List.forall_mem_singleton.mpr rfl) line

/-! ### Ends of lines -/

/-- No character of the text ends a line. -/
def OnOneLine (text : List Char) : Prop :=
  ∀ c ∈ text, c ≠ '\n' ∧ c ≠ '\r'

theorem OnOneLine.append {text more : List Char} (h : OnOneLine text) (hmore : OnOneLine more) :
    OnOneLine (text ++ more) :=
  List.forall_mem_append.mpr ⟨h, hmore⟩

/-- A line feed, a carriage return, or both in this order. -/
inductive LineEnd : List Char → Prop
  | feed : LineEnd ['\n']
  | carriage : LineEnd ['\r']
  | carriageFeed : LineEnd ['\r', '\n']

theorem uniformLineEnds_append {text : List Char} (h : OnOneLine text) (rest : List Char) :
    uniformLineEnds (text ++ rest) = text ++ uniformLineEnds rest := by
  induction text with
  | nil => rfl
  | cons c text ih =>
    obtain ⟨hc, htext⟩ := List.forall_mem_cons.mp h
    rw [List.cons_append, uniformLineEnds, ih htext, List.cons_append]
    · exact fun _ hreturn => absurd hreturn hc.2
    · exact fun hreturn => absurd hreturn hc.2

/-! ### Lines -/

theorem OnOneLine.notMem {text : List Char} (h : OnOneLine text) : '\n' ∉ text :=
  fun hfeed => (h '\n' hfeed).1 rfl

theorem linesOf_append {text : List Char} (h : '\n' ∉ text) (rest : List Char) :
    linesOf (text ++ '\n' :: rest) = (text ++ ['\n']) :: linesOf rest := by
  induction text with
  | nil => rfl
  | cons c text ih =>
    rw [List.mem_cons, not_or] at h
    rw [List.cons_append, linesOf, if_neg (Ne.symm h.1), ih h.2]
    rfl

/-- The last line of a stream may have no end. -/
theorem linesOf_of_notMem {text : List Char} (h : '\n' ∉ text) (hne : text ≠ []) : linesOf text = [text] := by
  induction text with
  | nil => exact absurd rfl hne
  | cons c text ih =>
    rw [List.mem_cons, not_or] at h
    rw [linesOf, if_neg (Ne.symm h.1)]
    cases text with
    | nil => rfl
    | cons d text => rw [ih h.2 (List.cons_ne_nil d text)]

/-- A text is a last line, or a line that ends in a line feed with a text after it. -/
theorem line_induction {P : List Char → Prop} (last : ∀ line, '\n' ∉ line → P line)
    (feed : ∀ line rest, '\n' ∉ line → P rest → P (line ++ '\n' :: rest)) (text : List Char) : P text := by
  induction hlength : text.length using Nat.strong_induction_on generalizing text with
  | h length ih =>
    by_cases hfeed : '\n' ∈ text
    · obtain ⟨line, rest, rfl, hline⟩ := List.eq_append_cons_of_mem hfeed
      have hshorter : rest.length < length := by
        rw [← hlength, List.length_append, List.length_cons]
        omega
      exact feed line rest hline (ih rest.length hshorter rest rfl)
    · exact last text hfeed

end Reckoner
