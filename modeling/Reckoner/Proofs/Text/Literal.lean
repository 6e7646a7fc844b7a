import Mathlib
import Reckoner.Double.Reader

/-!
# Literals

A literal is a run of ASCII digits, or two such runs with a point between them. The literal that
begins a text is the longest one there: it takes every digit it can, and a point only if a digit
comes after it.
-/

namespace Reckoner

/-- The digits before and after the point of a literal; without digits after it there is no point.
-/
@[ext] structure Literal where
  whole : List Char
  fraction : List Char
  whole_ne_nil : whole ≠ []
  isDigit_whole : ∀ c ∈ whole, c.isDigit = true
  isDigit_fraction : ∀ c ∈ fraction, c.isDigit = true
deriving DecidableEq

namespace Literal

def text (l : Literal) : List Char :=
  l.whole ++ if l.fraction = [] then [] else '.' :: l.fraction

def value (l : Literal) : Double :=
  .ofDigits l.whole l.fraction

theorem text_of_fraction_eq_nil {l : Literal} (h : l.fraction = []) : l.text = l.whole := by
  rw [text, if_pos h, List.append_nil]

theorem text_of_fraction_ne_nil {l : Literal} (h : l.fraction ≠ []) : l.text = l.whole ++ '.' :: l.fraction := by
  rw [text, if_neg h]

theorem exists_text_eq_cons (l : Literal) : ∃ c rest, l.text = c :: rest ∧ c.isDigit = true := by
  obtain ⟨c, rest, hwhole⟩ := List.exists_cons_of_ne_nil l.whole_ne_nil
  refine ⟨c, rest ++ if l.fraction = [] then [] else '.' :: l.fraction, ?_, l.isDigit_whole c (by simp [hwhole])⟩
  rw [text, hwhole, List.cons_append]

theorem text_ne_nil (l : Literal) : l.text ≠ [] := by
  obtain ⟨c, rest, htext, -⟩ := l.exists_text_eq_cons
  rw [htext]
  exact List.cons_ne_nil _ _

theorem isDigit_or_eq_point (l : Literal) {c : Char} (hc : c ∈ l.text) : c.isDigit = true ∨ c = '.' := by
  rw [text, List.mem_append] at hc
  rcases hc with hc | hc
  · exact .inl (l.isDigit_whole c hc)
  · split at hc
    · simp at hc
    · rcases List.mem_cons.mp hc with rfl | hc
      · exact .inr rfl
      · exact .inl (l.isDigit_fraction c hc)

end Literal

/-! ### The literal that begins a text -/

/-- The digits after a point that begins the text. -/
def fractionAhead : List Char → List Char
  | '.' :: text => text.takeWhile Char.isDigit
  | _ => []

theorem isDigit_fractionAhead (text : List Char) : ∀ c ∈ fractionAhead text, c.isDigit = true := by
  intro c hc
  unfold fractionAhead at hc
  split at hc
  · exact List.mem_takeWhile_imp hc
  · simp at hc

theorem prefix_of_fractionAhead_ne_nil {text : List Char} (h : fractionAhead text ≠ []) :
    '.' :: fractionAhead text <+: text := by
  unfold fractionAhead at h ⊢
  split
  · exact List.cons_prefix_cons.mpr ⟨rfl, List.takeWhile_prefix _⟩
  · rename_i hpoint
    split at h
    · rename_i afterPoint
      exact absurd rfl (hpoint afterPoint)
    · exact absurd rfl h

/-- The longest literal that begins a text with a digit. -/
def literalAhead (text : List Char) (h : text.takeWhile Char.isDigit ≠ []) : Literal where
  whole := text.takeWhile Char.isDigit
  fraction := fractionAhead (text.dropWhile Char.isDigit)
  whole_ne_nil := h
  isDigit_whole _ := List.mem_takeWhile_imp
  isDigit_fraction := isDigit_fractionAhead _

/-- The longest literal that begins the text, and what follows it. -/
def readLiteral? (text : List Char) : Option (Literal × List Char) :=
  if h : text.takeWhile Char.isDigit = [] then none
  else some (literalAhead text h, text.drop (literalAhead text h).text.length)

theorem readLiteral?_of_ne_nil {text : List Char} (h : text.takeWhile Char.isDigit ≠ []) :
    readLiteral? text = some (literalAhead text h, text.drop (literalAhead text h).text.length) :=
  dif_neg h

theorem readLiteral?_of_parts {text : List Char} {l : Literal} (hwhole : text.takeWhile Char.isDigit = l.whole)
    (hfraction : fractionAhead (text.dropWhile Char.isDigit) = l.fraction) :
    readLiteral? text = some (l, text.drop l.text.length) := by
  have hne : text.takeWhile Char.isDigit ≠ [] := hwhole ▸ l.whole_ne_nil
  have hsame : literalAhead text hne = l := Literal.ext hwhole hfraction
  rw [readLiteral?_of_ne_nil hne, hsame]

theorem readLiteral?_eq_none_iff {text : List Char} :
    readLiteral? text = none ↔ ∀ c ∈ text.head?, c.isDigit = false := by
  cases text with
  | nil => simp [readLiteral?]
  | cons c text => by_cases hc : c.isDigit = true <;> simp [readLiteral?, hc]

theorem prefix_of_literalAhead {text : List Char} (h : text.takeWhile Char.isDigit ≠ []) :
    (literalAhead text h).text <+: text := by
  rw [Literal.text]
  split
  · rw [List.append_nil]
    exact List.takeWhile_prefix _
  · rename_i hfraction
    conv_rhs => rw [← List.takeWhile_append_dropWhile (p := Char.isDigit) (l := text)]
    exact (List.prefix_append_right_inj _).mpr (prefix_of_fractionAhead_ne_nil hfraction)

theorem eq_append_of_readLiteral? {text rest : List Char} {l : Literal} (h : readLiteral? text = some (l, rest)) :
    text = l.text ++ rest := by
  unfold readLiteral? at h
  split at h
  · simp at h
  · rename_i hne
    obtain ⟨rfl, rfl⟩ := Prod.mk.inj (Option.some.inj h)
    exact List.prefix_iff_eq_append.mp (prefix_of_literalAhead hne) |>.symm

/-- What follows the digits that begin the text is what is left of the literal, and the rest. -/
theorem dropWhile_eq_append_of_readLiteral? {text rest : List Char} {l : Literal}
    (h : readLiteral? text = some (l, rest)) (hwhole : l.whole = text.takeWhile Char.isDigit) :
    text.dropWhile Char.isDigit = (if l.fraction = [] then [] else '.' :: l.fraction) ++ rest := by
  have happend := eq_append_of_readLiteral? h
  rw [Literal.text, hwhole, List.append_assoc] at happend
  conv_lhs at happend => rw [← List.takeWhile_append_dropWhile (p := Char.isDigit) (l := text)]
  exact List.append_cancel_left happend

/-! ### Reading a literal with more text after it -/

theorem takeWhile_text_append (l : Literal) (rest : List Char) :
    (l.text ++ rest).takeWhile Char.isDigit =
      if l.fraction = [] then l.whole ++ rest.takeWhile Char.isDigit else l.whole := by
  split
  · rename_i hfraction
    rw [Literal.text_of_fraction_eq_nil hfraction, List.takeWhile_append_of_pos l.isDigit_whole]
  · rename_i hfraction
    rw [Literal.text_of_fraction_ne_nil hfraction, List.append_assoc, List.takeWhile_append_of_pos l.isDigit_whole]
    simp

theorem fractionAhead_text_append (l : Literal) (rest : List Char) :
    fractionAhead ((l.text ++ rest).dropWhile Char.isDigit) =
      if l.fraction = [] then fractionAhead (rest.dropWhile Char.isDigit)
      else l.fraction ++ rest.takeWhile Char.isDigit := by
  split
  · rename_i hfraction
    rw [Literal.text_of_fraction_eq_nil hfraction, List.dropWhile_append_of_pos l.isDigit_whole]
  · rename_i hfraction
    rw [Literal.text_of_fraction_ne_nil hfraction, List.append_assoc, List.dropWhile_append_of_pos l.isDigit_whole,
      List.cons_append, List.dropWhile_cons_of_neg (by decide), fractionAhead,
      List.takeWhile_append_of_pos l.isDigit_fraction]

/-- No digit and no point comes first, so nothing that could make a literal before it longer. -/
def EndsLiteral (rest : List Char) : Prop :=
  ∀ c ∈ rest.head?, c.isDigit = false ∧ c ≠ '.'

theorem EndsLiteral.takeWhile {rest : List Char} (h : EndsLiteral rest) : rest.takeWhile Char.isDigit = [] := by
  cases rest with
  | nil => rfl
  | cons c rest => simp [(h c rfl).1]

theorem EndsLiteral.fractionAhead {rest : List Char} (h : EndsLiteral rest) :
    fractionAhead (rest.dropWhile Char.isDigit) = [] := by
  cases rest with
  | nil => rfl
  | cons c rest =>
    rw [List.dropWhile_cons_of_neg (by simp [(h c rfl).1])]
    unfold Reckoner.fractionAhead
    split
    · rename_i hpoint
      exact absurd (List.cons.inj hpoint).1 (h c rfl).2
    · rfl

/-- A literal is read as itself if what follows it does not make it longer. -/
theorem readLiteral?_append (l : Literal) {rest : List Char} (h : EndsLiteral rest) :
    readLiteral? (l.text ++ rest) = some (l, rest) := by
  have hread : readLiteral? (l.text ++ rest) = some (l, (l.text ++ rest).drop l.text.length) := by
    apply readLiteral?_of_parts
    · rw [takeWhile_text_append, h.takeWhile, List.append_nil, ite_self]
    · rw [fractionAhead_text_append, h.takeWhile, h.fractionAhead, List.append_nil]
      split
      · rename_i hfraction
        exact hfraction.symm
      · rfl
  rw [hread, List.drop_left]

/-- A literal is read to its end at least, whatever follows it. -/
theorem exists_readLiteral?_append (l : Literal) (rest : List Char) :
    ∃ longer after, readLiteral? (l.text ++ rest) = some (longer, after) ∧ l.text <+: longer.text := by
  have hwhole := takeWhile_text_append l rest
  have hahead := fractionAhead_text_append l rest
  by_cases hfraction : l.fraction = []
  · rw [if_pos hfraction] at hwhole hahead
    let longer : Literal := {
      whole := l.whole ++ rest.takeWhile Char.isDigit
      fraction := fractionAhead (rest.dropWhile Char.isDigit)
      whole_ne_nil := by simp [l.whole_ne_nil]
      isDigit_whole := List.forall_mem_append.mpr ⟨l.isDigit_whole, fun _ => List.mem_takeWhile_imp⟩
      isDigit_fraction := isDigit_fractionAhead _
    }
    refine ⟨longer, _, readLiteral?_of_parts hwhole hahead, ?_⟩
    rw [Literal.text_of_fraction_eq_nil hfraction, Literal.text, List.append_assoc]
    exact List.prefix_append _ _
  · rw [if_neg hfraction] at hwhole hahead
    let longer : Literal := {
      l with
      fraction := l.fraction ++ rest.takeWhile Char.isDigit
      isDigit_fraction := List.forall_mem_append.mpr ⟨l.isDigit_fraction, fun _ => List.mem_takeWhile_imp⟩
    }
    have hlonger : longer.fraction ≠ [] := by simp [longer, hfraction]
    refine ⟨longer, _, readLiteral?_of_parts hwhole hahead, ?_⟩
    rw [Literal.text_of_fraction_ne_nil hfraction, Literal.text_of_fraction_ne_nil hlonger]
    exact (List.prefix_append_right_inj _).mpr (List.cons_prefix_cons.mpr ⟨rfl, List.prefix_append _ _⟩)

/-! ### The value of a literal

A literal is written in the form in which doubles are read, and stands for the double that is read
from it.
-/

theorem spanDigits_append {digits rest : List Char} (hdigits : ∀ c ∈ digits, c.isDigit = true)
    (hrest : ∀ c ∈ rest.head?, c.isDigit = false) : Decimal.spanDigits (digits ++ rest) = (digits, rest) := by
  rw [Decimal.spanDigits, List.takeWhile_append_of_pos hdigits, List.dropWhile_append_of_pos hdigits]
  cases rest with
  | nil => simp
  | cons c rest => simp [hrest c rfl]

theorem Literal.decimalRead?_text (l : Literal) :
    Decimal.read? l.text = some (.ofDigits l.whole l.fraction) := by
  have hwhole : l.whole.isEmpty = false := by simp [l.whole_ne_nil]
  by_cases hfraction : l.fraction = []
  · have hspan : Decimal.spanDigits (l.whole ++ []) = (l.whole, []) := spanDigits_append l.isDigit_whole (by simp)
    rw [List.append_nil] at hspan
    simp [Decimal.read?, text_of_fraction_eq_nil hfraction, hspan, hwhole, hfraction]
  · have hspan : Decimal.spanDigits (l.whole ++ '.' :: l.fraction) = (l.whole, '.' :: l.fraction) :=
      spanDigits_append l.isDigit_whole (by simp)
    have hmore : Decimal.spanDigits (l.fraction ++ []) = (l.fraction, []) :=
      spanDigits_append l.isDigit_fraction (by simp)
    rw [List.append_nil] at hmore
    simp [Decimal.read?, text_of_fraction_ne_nil hfraction, hspan, hmore, hwhole]

theorem Literal.read?_text (l : Literal) : Double.read? l.text = some l.value := by
  obtain ⟨c, rest, htext, hc⟩ := l.exists_text_eq_cons
  have hother : ∀ d : Char, d.isDigit = false → c ≠ d := fun d hd hcd => by simp [hcd, hd] at hc
  have hnan : ¬ l.text = "nan".toList := by simp [htext, hother 'n' rfl]
  have hinf : ¬ l.text = "inf".toList := by simp [htext, hother 'i' rfl]
  have hmagnitude : Double.readMagnitude? l.text = some (Decimal.ofDigits l.whole l.fraction).nearest := by
    rw [Double.readMagnitude?, if_neg hinf, l.decimalRead?_text, Option.map_some]
  rw [Double.read?, if_neg hnan, hmagnitude]
  · rfl
  · intro rest hsign
    rw [htext] at hsign
    exact hother '-' rfl (List.cons.inj hsign).1

end Reckoner
