import Mathlib
import Reckoner.Expr.Basic
import Reckoner.Parser.Lexical
import Reckoner.Proofs.Parser.Scan
import Reckoner.Proofs.Text.Literal

/-!
# Tokens as scanners

What the token parsers take off the text ahead. Spaces before a token are passed over first and
those after it afterwards, so a token leaves a text that does not begin with a space, and what it
finds depends only on the text after the spaces.
-/

namespace Reckoner

def afterSpaces (text : List Char) : List Char :=
  text.dropWhile (· == ' ')

/-- What follows a sign and the spaces around it, if the sign comes first. -/
def afterSign? (sign : Char) (text : List Char) : Option (List Char) :=
  (Parser.oneChar (· == sign) (afterSpaces text)).map fun found => afterSpaces found.2

/-- The digits that come first, if there are any, and what follows them. -/
def digitsAhead (text : List Char) : Option (List Char × List Char) :=
  if text.takeWhile Char.isDigit = [] then none
  else some (text.takeWhile Char.isDigit, text.dropWhile Char.isDigit)

/-- The literal that comes first, and what follows it and the spaces around it. -/
def readNumber? (text : List Char) : Option (Literal × List Char) :=
  (readLiteral? (afterSpaces text)).map fun found => (found.1, afterSpaces found.2)

/-! ### Spaces -/

@[simp] theorem afterSpaces_nil : afterSpaces [] = [] :=
  rfl

theorem afterSpaces_cons_of_ne {c : Char} (h : c ≠ ' ') (text : List Char) : afterSpaces (c :: text) = c :: text :=
  List.dropWhile_cons_of_neg (by simpa using h)

@[simp] theorem afterSpaces_replicate_append (count : Nat) (text : List Char) :
    afterSpaces (List.replicate count ' ' ++ text) = afterSpaces text :=
  List.dropWhile_append_of_pos fun _ hc => by simp [(List.mem_replicate.mp hc).2]

@[simp] theorem afterSpaces_afterSpaces (text : List Char) : afterSpaces (afterSpaces text) = afterSpaces text := by
  induction text with
  | nil => rfl
  | cons c text ih =>
    by_cases hc : c = ' '
    · simpa [afterSpaces, hc] using ih
    · rw [afterSpaces_cons_of_ne hc, afterSpaces_cons_of_ne hc]

theorem head?_afterSpaces_ne_space (text : List Char) : (afterSpaces text).head? ≠ some ' ' := by
  intro hspace
  have hnot := List.head?_dropWhile_not (· == ' ') text
  rw [show text.dropWhile (· == ' ') = afterSpaces text from rfl, hspace] at hnot
  exact absurd hnot (by decide)

theorem afterSpaces_suffix (text : List Char) : afterSpaces text <:+ text :=
  List.dropWhile_suffix _

theorem exists_eq_replicate_append_afterSpaces (text : List Char) :
    ∃ count, text = List.replicate count ' ' ++ afterSpaces text := by
  refine ⟨(text.takeWhile (· == ' ')).length, ?_⟩
  have hspaces : text.takeWhile (· == ' ') = List.replicate (text.takeWhile (· == ' ')).length ' ' :=
    List.eq_replicate_of_mem fun c hc => by simpa using List.mem_takeWhile_imp hc
  rw [← hspaces, afterSpaces, List.takeWhile_append_dropWhile]

/-! ### Signs -/

theorem afterSign?_eq_some_iff {sign : Char} {text rest : List Char} :
    afterSign? sign text = some rest ↔ ∃ after, afterSpaces text = sign :: after ∧ rest = afterSpaces after := by
  unfold afterSign?
  cases afterSpaces text with
  | nil => simp [Parser.oneChar]
  | cons c after =>
    by_cases hc : c = sign
    · subst hc
      simp [Parser.oneChar, eq_comm]
    · simp [Parser.oneChar, hc]

theorem afterSign?_suffix {sign : Char} {text rest : List Char} (h : afterSign? sign text = some rest) :
    rest <:+ text := by
  obtain ⟨after, hafter, rfl⟩ := afterSign?_eq_some_iff.mp h
  have hsign : after <:+ sign :: after := List.suffix_cons sign after
  exact (afterSpaces_suffix after).trans (hsign.trans (hafter ▸ afterSpaces_suffix text))

theorem length_lt_of_afterSign? {sign : Char} {text rest : List Char} (h : afterSign? sign text = some rest) :
    rest.length < text.length := by
  obtain ⟨after, hafter, rfl⟩ := afterSign?_eq_some_iff.mp h
  have hspaces := (afterSpaces_suffix text).length_le
  have hafterSpaces := (afterSpaces_suffix after).length_le
  rw [hafter, List.length_cons] at hspaces
  omega

/-- Only one sign can come first. -/
theorem afterSign?_eq_none_of_ne {sign other : Char} {text rest : List Char} (h : afterSign? sign text = some rest)
    (hne : sign ≠ other) : afterSign? other text = none := by
  obtain ⟨after, hafter, -⟩ := afterSign?_eq_some_iff.mp h
  rw [Option.eq_none_iff_forall_ne_some]
  intro rest' hother
  obtain ⟨after', hafter', -⟩ := afterSign?_eq_some_iff.mp hother
  exact hne (List.cons.inj (hafter.symm.trans hafter')).1

/-! ### Numbers -/

theorem digitsAhead_append {digits rest : List Char} (hne : digits ≠ []) (hdigits : ∀ c ∈ digits, c.isDigit = true)
    (hrest : ∀ c ∈ rest.head?, c.isDigit = false) : digitsAhead (digits ++ rest) = some (digits, rest) := by
  obtain ⟨htaken, hleft⟩ := Prod.mk.inj (spanDigits_append hdigits hrest)
  rw [digitsAhead, htaken, hleft, if_neg hne]

theorem readNumber?_eq_some_iff {text rest : List Char} {l : Literal} :
    readNumber? text = some (l, rest) ↔
      ∃ after, readLiteral? (afterSpaces text) = some (l, after) ∧ rest = afterSpaces after := by
  unfold readNumber?
  rw [Option.map_eq_some_iff]
  constructor
  · rintro ⟨⟨l', after⟩, hread, hfound⟩
    obtain ⟨rfl, rfl⟩ := Prod.mk.inj hfound
    exact ⟨after, hread, rfl⟩
  · rintro ⟨after, hread, rfl⟩
    exact ⟨(l, after), hread, rfl⟩

theorem readNumber?_suffix {text rest : List Char} {l : Literal} (h : readNumber? text = some (l, rest)) :
    rest <:+ text := by
  obtain ⟨after, hread, rfl⟩ := readNumber?_eq_some_iff.mp h
  have happend : after <:+ afterSpaces text := ⟨l.text, (eq_append_of_readLiteral? hread).symm⟩
  exact (afterSpaces_suffix after).trans (happend.trans (afterSpaces_suffix text))

theorem readNumber?_eq_none_of_afterSign? {sign : Char} {text rest : List Char}
    (h : afterSign? sign text = some rest) (hsign : sign.isDigit = false) : readNumber? text = none := by
  obtain ⟨after, hafter, -⟩ := afterSign?_eq_some_iff.mp h
  rw [readNumber?, Option.map_eq_none_iff, readLiteral?_eq_none_iff, hafter]
  simpa using hsign

/-! ### The token parsers -/

namespace Parser

variable {ω α : Type}

theorem char_singleton (sign : Char) :
    (char (String.singleton sign) : Parser ω Char) = satisfy (· == sign) := by
  have hbeq : (fun c => String.singleton sign == String.singleton c) = (· == sign) := by
    funext c
    rw [Bool.eq_iff_iff, beq_iff_eq, beq_iff_eq, ← String.toList_inj]
    simp [eq_comm]
  rw [char, hbeq]

theorem scans_skipSpaces : Scans (skipSpaces : Parser ω Unit) fun text => some ((), afterSpaces text) := by
  have hspace : (char " " : Parser ω Char) = satisfy (· == ' ') := char_singleton ' '
  rw [skipSpaces, hspace]
  exact (scans_many_satisfy (· == ' ')).map fun _ => ()

theorem Scans.token {p : Parser ω α} {scan : List Char → Option (α × List Char)} (h : Scans p scan) :
    Scans (token p) fun text => (scan (afterSpaces text)).map fun found => (found.1, afterSpaces found.2) :=
  ((scans_skipSpaces.andThen h).skip scans_skipSpaces).congr fun text => by
    simp only [Option.bind_some, Option.map_eq_bind]
    rfl

theorem scans_symbol (sign : Char) :
    Scans (symbol (String.singleton sign) : Parser ω Char)
      fun text => (afterSign? sign text).map fun rest => (sign, rest) := by
  rw [symbol, char_singleton]
  apply (scans_satisfy (· == sign)).token.congr
  intro text
  rw [afterSign?]
  cases afterSpaces text with
  | nil => rfl
  | cons c rest => by_cases hc : c = sign <;> simp [oneChar, hc]

theorem run_symbol_of_none (sign : Char) {c : Cursor} (hc : c.InReach) (h : afterSign? sign c.ahead = none) :
    (symbol (String.singleton sign) : Parser ω Char).run c = ⟨[], .returned none⟩ := by
  rw [(scans_symbol sign).run hc, h]
  rfl

theorem run_symbol_of_some (sign : Char) {c : Cursor} {rest : List Char} (hc : c.InReach)
    (h : afterSign? sign c.ahead = some rest) :
    (symbol (String.singleton sign) : Parser ω Char).run c = ⟨[], .returned (some (c.parsed (sign, rest)))⟩ := by
  rw [(scans_symbol sign).run hc, h]
  rfl

theorem scans_digits : Scans (digit.many1 : Parser ω (List Char)) digitsAhead :=
  scans_many1_satisfy Char.isDigit

theorem scans_integer :
    Scans (integer : Parser ω Double) fun text => (digitsAhead text).map fun whole => (.ofDigits whole.1 [], whole.2) :=
  scans_digits.map fun whole => Double.ofDigits whole []

theorem scans_floating :
    Scans (floating : Parser ω Double) fun text => (digitsAhead text).bind fun whole =>
      ((oneChar (· == '.') whole.2).bind fun point => digitsAhead point.2).map fun fraction =>
        (.ofDigits whole.1 fraction.1, fraction.2) := by
  have hpoint : (char "." : Parser ω Char) = satisfy (· == '.') := char_singleton '.'
  rw [floating, hpoint]
  exact scans_digits.bind fun whole =>
    ((scans_satisfy (· == '.')).andThen scans_digits).map fun fraction => Double.ofDigits whole fraction

/-- The literal with a fraction if there is one, and the one without it otherwise, is the longest
literal. -/
theorem scans_literal :
    Scans (floating.orElse integer : Parser ω Double)
      fun text => (readLiteral? text).map fun found => (found.1.value, found.2) := by
  apply (scans_floating.orElse scans_integer).congr
  intro text
  by_cases hwhole : text.takeWhile Char.isDigit = []
  · simp [readLiteral?, digitsAhead, hwhole]
  · obtain ⟨l, rest, hread, hl, hfraction⟩ : ∃ l rest, readLiteral? text = some (l, rest) ∧
        l.whole = text.takeWhile Char.isDigit ∧ l.fraction = fractionAhead (text.dropWhile Char.isDigit) :=
      ⟨_, _, readLiteral?_of_ne_nil hwhole, rfl, rfl⟩
    have hdrop := dropWhile_eq_append_of_readLiteral? hread hl
    rw [hread]
    simp only [digitsAhead, if_neg hwhole, Option.bind_some, Option.map_some, Literal.value, hl]
    by_cases hnone : l.fraction = []
    · rw [if_pos hnone, List.nil_append] at hdrop
      rw [hnone, hdrop] at hfraction
      rw [hdrop, hnone]
      cases rest with
      | nil => rfl
      | cons c after =>
        by_cases hc : c = '.'
        · subst hc
          have hdigits : after.takeWhile Char.isDigit = [] := hfraction.symm
          simp only [oneChar, beq_self_eq_true, if_true, Option.bind_some, if_pos hdigits, Option.map_none,
            Option.none_or]
        · simp [oneChar, hc]
    · rw [if_neg hnone, List.cons_append] at hdrop
      rw [hdrop, fractionAhead] at hfraction
      have hsplit := List.takeWhile_append_dropWhile (p := Char.isDigit) (l := l.fraction ++ rest)
      rw [← hfraction] at hsplit
      rw [hdrop]
      simp only [oneChar, beq_self_eq_true, if_true, Option.bind_some, ← hfraction, if_neg hnone, Option.map_some,
        List.append_cancel_left hsplit, Option.some_or]

theorem scans_number :
    Scans ((token (floating.orElse integer)).map Expr.number : Parser ω Expr)
      fun text => (readNumber? text).map fun found => (.number found.1.value, found.2) :=
  (scans_literal.token.map Expr.number).congr fun text => by
    simp only [readNumber?, Option.map_map]
    rfl

end Parser

end Reckoner
