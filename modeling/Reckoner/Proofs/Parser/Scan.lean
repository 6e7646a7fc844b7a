import Mathlib
import Reckoner.Proofs.Parser.Repeat
import Reckoner.Proofs.Text.Ahead

/-!
# Parsers as scanners

A scanner takes characters off a text and leaves the rest. A parser that leaves no notes and never
breaks off is described by one: whatever the cursor, the parser does with it what the scanner does
with the characters ahead. Each combinator on parsers has its counterpart on scanners, so a parser
for a token is computed with as a function on lists.
-/

namespace Reckoner

/-- A value found, with the cursor moved up to the text left after it. -/
def Cursor.parsed {α : Type} (c : Cursor) (found : α × List Char) : Parsed α :=
  ⟨found.1, c.upTo found.2⟩

namespace Parser

variable {ω α β : Type}

structure Scans (p : Parser ω α) (scan : List Char → Option (α × List Char)) : Prop where
  suffix : ∀ {text value rest}, scan text = some (value, rest) → rest <:+ text
  run : ∀ {c : Cursor}, c.InReach → p.run c = pure ((scan c.ahead).map c.parsed)

namespace Scans

variable {p q : Parser ω α} {scan other : List Char → Option (α × List Char)}

theorem congr (h : Scans p scan) (heq : ∀ text, scan text = other text) : Scans p other :=
  funext heq ▸ h

theorem run_bind (h : Scans p scan) (next : α → Parser ω β) {c : Cursor} (hc : c.InReach) :
    (p.bind next).run c = match scan c.ahead with
      | none => pure none
      | some (value, rest) => (next value).run (c.upTo rest) := by
  simp only [Parser.bind, h.run hc, pure_bind]
  cases scan c.ahead <;> rfl

theorem run_map (h : Scans p scan) (f : α → β) {c : Cursor} (hc : c.InReach) :
    (p.map f).run c = pure ((scan c.ahead).map fun found => c.parsed (f found.1, found.2)) := by
  simp only [Parser.map, mapTraced, h.run hc, pure_bind]
  cases scan c.ahead <;> rfl

theorem map (h : Scans p scan) (f : α → β) :
    Scans (p.map f) fun text => (scan text).map fun found => (f found.1, found.2) where
  suffix heq := by
    obtain ⟨⟨value, rest⟩, hscan, hfound⟩ := Option.map_eq_some_iff.mp heq
    obtain ⟨-, rfl⟩ := Prod.mk.inj hfound
    exact h.suffix hscan
  run hc := by
    rw [h.run_map f hc, Option.map_map]
    rfl

theorem bind (h : Scans p scan) {next : α → Parser ω β} {more : α → List Char → Option (β × List Char)}
    (hnext : ∀ value, Scans (next value) (more value)) :
    Scans (p.bind next) fun text => (scan text).bind fun found => more found.1 found.2 where
  suffix heq := by
    obtain ⟨⟨value, rest⟩, hscan, hmore⟩ := Option.bind_eq_some_iff.mp heq
    exact ((hnext value).suffix hmore).trans (h.suffix hscan)
  run {c} hc := by
    rw [h.run_bind next hc]
    cases hscan : scan c.ahead with
    | none => rfl
    | some found =>
      obtain ⟨value, rest⟩ := found
      have hsuffix := h.suffix hscan
      have hrest : (next value).run (c.upTo rest) = _ := (hnext value).run (hc.upTo rest)
      rw [Cursor.ahead_upTo hc hsuffix] at hrest
      dsimp only [Option.bind_some]
      rw [hrest]
      refine congrArg pure (Option.map_congr fun found hfound => ?_)
      have hfurther : found.2 <:+ rest := (hnext value).suffix hfound
      rw [Cursor.parsed, Cursor.parsed, Cursor.upTo_upTo hc hsuffix hfurther]

theorem andThen (h : Scans p scan) {q : Parser ω β} {more : List Char → Option (β × List Char)}
    (hmore : Scans q more) : Scans (p.andThen q) fun text => (scan text).bind fun found => more found.2 :=
  h.bind fun _ => hmore

theorem skip (h : Scans p scan) {q : Parser ω β} {more : List Char → Option (β × List Char)}
    (hmore : Scans q more) :
    Scans (p.skip q) fun text => (scan text).bind fun found => (more found.2).map fun after => (found.1, after.2) :=
  h.bind fun value => hmore.map fun _ => value

theorem orElse (h : Scans p scan) (hother : Scans q other) :
    Scans (p.orElse q) fun text => (scan text).or (other text) where
  suffix {text} value rest heq := by
    rcases Option.or_eq_some_iff.mp heq with hscan | ⟨-, hscan⟩
    · exact h.suffix hscan
    · exact hother.suffix hscan
  run {c} hc := by
    simp only [Parser.orElse, h.run hc, pure_bind]
    cases hscan : scan c.ahead with
    | none => simpa using hother.run hc
    | some found => rfl

end Scans

/-! ### Single characters and runs of them -/

/-- Takes one character, if there is one and it passes the test. -/
def oneChar (test : Char → Bool) : List Char → Option (Char × List Char)
  | [] => none
  | character :: rest => if test character then some (character, rest) else none

theorem run_anyChar {c : Cursor} (hc : c.InReach) :
    (anyChar : Parser ω Char).run c = pure ((oneChar (fun _ => true) c.ahead).map c.parsed) := by
  simp only [anyChar]
  cases hahead : c.ahead with
  | nil =>
    rw [if_pos ((Cursor.atEnd_iff_ahead_eq_nil hc).mpr hahead)]
    rfl
  | cons character rest =>
    have hend : ¬ c.atEnd = true := by
      rw [Cursor.atEnd_iff_ahead_eq_nil hc, hahead]
      simp
    rw [if_neg hend, Cursor.head?_eq_head?_ahead hc, hahead]
    simp [oneChar, Cursor.parsed, Cursor.upTo, hahead]

theorem scans_satisfy (test : Char → Bool) : Scans (satisfy test : Parser ω Char) (oneChar test) where
  suffix {text} value rest heq := by
    cases text with
    | nil => simp [oneChar] at heq
    | cons character text =>
      simp only [oneChar, Option.ite_none_right_eq_some, Option.some.injEq, Prod.mk.injEq] at heq
      obtain ⟨-, -, rfl⟩ := heq
      exact List.suffix_cons character _
  run {c} hc := by
    simp only [satisfy, filter, filterTraced, run_anyChar hc, pure_bind]
    cases c.ahead with
    | nil => rfl
    | cons character rest =>
      simp only [oneChar, if_true, Option.map_some]
      by_cases htest : test character = true
      · simp [htest, Cursor.parsed]
      · simp [htest, Cursor.parsed]

theorem advances_anyChar : (anyChar : Parser ω Char).Advances := by
  intro c next hmatch
  simp only [anyChar] at hmatch
  split at hmatch
  · simp at hmatch
  · rename_i hend
    simp only [Cursor.atEnd, decide_eq_true_eq, not_le] at hend
    split at hmatch
    · simp [Traced.raise] at hmatch
    · simp only [Traced.exit_pure, Exit.returned.injEq, Option.some.injEq] at hmatch
      subst hmatch
      exact ⟨rfl, Int.lt_succ c.offset, Int.add_one_le_of_lt hend⟩

theorem Advances.filter {p : Parser ω α} (h : p.Advances) (test : α → Bool) : (p.filter test).Advances := by
  intro c next hmatch
  apply h c next
  simp only [Parser.filter, filterTraced, Traced.exit_bind] at hmatch
  rcases hexit : (p.run c).exit with (_ | first) | fault | _
  · simp [hexit] at hmatch
  · by_cases htest : test first.value = true
    · simpa [hexit, htest] using hmatch
    · simp [hexit, htest] at hmatch
  · simp [hexit] at hmatch
  · simp [hexit] at hmatch

theorem advances_satisfy (test : Char → Bool) : (satisfy test : Parser ω Char).Advances :=
  advances_anyChar.filter test

theorem scans_many_satisfy (test : Char → Bool) :
    Scans (satisfy test : Parser ω Char).many fun text => some (text.takeWhile test, text.dropWhile test) where
  suffix {text} value rest heq := by
    obtain ⟨-, rfl⟩ := Prod.mk.inj (Option.some.inj heq)
    exact List.dropWhile_suffix test
  run {c} hc := by
    -- Each round leaves one character less ahead.
    generalize hahead : c.ahead = text
    induction text generalizing c with
    | nil =>
      have hhere : c.upTo [] = c := hahead ▸ c.upTo_ahead
      rw [(advances_satisfy test).run_many, (scans_satisfy test).run hc, hahead]
      simp [oneChar, Cursor.parsed, hhere]
    | cons character text ih =>
      have hsuffix : text <:+ c.ahead := hahead ▸ List.suffix_cons character text
      have hrest := ih (hc.upTo text) (Cursor.ahead_upTo hc hsuffix)
      rw [(advances_satisfy test).run_many, (scans_satisfy test).run hc, hahead]
      by_cases htest : test character = true
      · have hfurther : text.dropWhile test <:+ text := List.dropWhile_suffix test
        simp [oneChar, htest, Cursor.parsed, hrest, Cursor.upTo_upTo hc hsuffix hfurther]
      · have hhere : c.upTo (character :: text) = c := hahead ▸ c.upTo_ahead
        simp [oneChar, htest, Cursor.parsed, hhere]

theorem scans_many1_satisfy (test : Char → Bool) :
    Scans (satisfy test : Parser ω Char).many1 fun text =>
      if text.takeWhile test = [] then none else some (text.takeWhile test, text.dropWhile test) := by
  have hscans := (scans_satisfy (ω := ω) test).bind fun first =>
    (scans_many_satisfy test).map fun more => first :: more
  apply hscans.congr
  intro text
  cases text with
  | nil => rfl
  | cons character text => by_cases htest : test character = true <;> simp [oneChar, htest]

end Parser

end Reckoner
