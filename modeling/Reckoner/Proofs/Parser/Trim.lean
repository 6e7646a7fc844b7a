import Mathlib
import Reckoner.Expr.Grammar
import Reckoner.Proofs.Parser.Laws
import Reckoner.Proofs.Parser.Lexical
import Reckoner.Proofs.Parser.Parts

/-!
# Spaces around a token

A token passes over spaces, applies its parser once and passes over spaces again, and this is all it
does: failures, faults and notes are those of the parser at the first place without a space. So a
token inside a token finds no spaces left on either side and changes nothing, and wherever a token
stops there is no space ahead.
-/

namespace Reckoner

namespace Cursor

/-- The later cursor stands at the first offset, from that of the first cursor on, where there is no
space; at the end of the text there is none. -/
structure FirstNonblank (c later : Cursor) : Prop where
  text_eq : later.text = c.text
  le : c.offset ≤ later.offset
  spaces : ∀ offset, c.offset ≤ offset → offset < later.offset → (⟨c.text, offset⟩ : Cursor).head? = some ' '
  not_space : later.head? ≠ some ' '

/-- The cursor moved over the spaces that come next. -/
def pastSpaces (c : Cursor) : Cursor :=
  c.upTo (afterSpaces c.ahead)

section

variable {c later other : Cursor}

theorem FirstNonblank.offset_le (h : c.FirstNonblank later) (hother : c.FirstNonblank other) :
    later.offset ≤ other.offset := by
  by_contra hless
  have hspace := h.spaces other.offset hother.le (by omega)
  rw [← hother.text_eq] at hspace
  exact hother.not_space hspace

theorem FirstNonblank.unique (h : c.FirstNonblank later) (hother : c.FirstNonblank other) : later = other := by
  rw [mk.injEq]
  exact ⟨h.text_eq.trans hother.text_eq.symm, le_antisymm (h.offset_le hother) (hother.offset_le h)⟩

theorem InReach.pastSpaces (h : c.InReach) : c.pastSpaces.InReach :=
  h.upTo _

theorem offset_le_pastSpaces (c : Cursor) : c.offset ≤ c.pastSpaces.offset := by
  rw [pastSpaces, offset_upTo]
  omega

theorem ahead_pastSpaces (h : c.InReach) : c.pastSpaces.ahead = afterSpaces c.ahead :=
  ahead_upTo h (afterSpaces_suffix c.ahead)

theorem pastSpaces_pastSpaces (h : c.InReach) : c.pastSpaces.pastSpaces = c.pastSpaces := by
  have hsuffix := afterSpaces_suffix c.ahead
  rw [pastSpaces, ahead_pastSpaces h, afterSpaces_afterSpaces, pastSpaces, upTo_upTo h hsuffix (List.suffix_refl _)]

theorem head?_pastSpaces_ne (h : c.InReach) : c.pastSpaces.head? ≠ some ' ' := by
  rw [head?_eq_head?_ahead h.pastSpaces, ahead_pastSpaces h]
  exact head?_afterSpaces_ne_space c.ahead

theorem firstNonblank_pastSpaces (h : 0 ≤ c.offset) : c.FirstNonblank c.pastSpaces where
  text_eq := rfl
  le := c.offset_le_pastSpaces
  spaces offset hleast hless := by
    have hc := inReach_of_nonneg h
    obtain ⟨count, hcount⟩ := exists_eq_replicate_append_afterSpaces c.ahead
    have hlength := congrArg List.length hcount
    rw [List.length_append, List.length_replicate] at hlength
    -- The offset is one of those that the spaces ahead take up.
    obtain ⟨passed, rfl⟩ : ∃ passed : Nat, offset = c.offset + passed := ⟨(offset - c.offset).toNat, by omega⟩
    rw [pastSpaces, offset_upTo] at hless
    have hpassed : passed < count := by omega
    have hspace : c.ahead[passed]? = some ' ' := by
      rw [hcount, List.getElem?_append_left (by simpa using hpassed), List.getElem?_replicate_of_lt hpassed]
    calc (c.advance passed).head?
      _ = (c.advance passed).ahead.head? := head?_eq_head?_ahead (inReach_of_nonneg (by rw [offset_advance]; omega))
      _ = some ' ' := by rw [ahead_advance hc, List.head?_drop, hspace]
  not_space := head?_pastSpaces_ne (inReach_of_nonneg h)

theorem firstNonblank_iff (h : 0 ≤ c.offset) : c.FirstNonblank later ↔ later = c.pastSpaces := by
  constructor
  · exact fun hlater => hlater.unique (firstNonblank_pastSpaces h)
  · rintro rfl
    exact firstNonblank_pastSpaces h

end

end Cursor

theorem Traced.notes_map {ω α β : Type} (f : α → β) (run : Traced ω α) : (f <$> run).notes = run.notes := by
  rw [map_eq_pure_bind]
  rcases run with ⟨notes, value | fault | _⟩
  · rw [returned_bind, notes_pure, List.append_nil]
  · rfl
  · rfl

theorem Traced.exit_map_eq_returned_iff {ω α β : Type} {f : α → β} {run : Traced ω α} {result : β} :
    (f <$> run).exit = .returned result ↔ ∃ value, run.exit = .returned value ∧ f value = result := by
  rw [map_eq_pure_bind, exit_bind_eq_returned_iff]
  simp

/-- The same value, with the cursor moved over the spaces that come next. -/
def Parsed.pastSpaces {α : Type} (found : Parsed α) : Parsed α :=
  { found with rest := found.rest.pastSpaces }

namespace Parser

variable {ω α : Type} {p : Parser ω α} {c : Cursor}

theorem run_skipSpaces (hc : c.InReach) :
    (skipSpaces : Parser ω Unit).run c = ⟨[], .returned (some ⟨(), c.pastSpaces⟩)⟩ :=
  scans_skipSpaces.run hc

/-- Everything that a token does. -/
theorem run_token (hc : c.InReach) (hp : ∀ found, p.Matches c.pastSpaces found → found.rest.InReach) :
    (token p).run c = Option.map Parsed.pastSpaces <$> p.run c.pastSpaces := by
  rw [token, andThen_skip, run_andThen_of_some (run_skipSpaces hc) rfl, map_eq_pure_bind]
  apply Traced.bind_congr_of_returned
  intro result hresult
  cases result with
  | none => rfl
  | some found => exact run_map_of_returned _ (run_skipSpaces (hp found hresult))

theorem matches_token_iff (hc : c.InReach) (hp : ∀ found, p.Matches c.pastSpaces found → found.rest.InReach)
    {found : Parsed α} : (token p).Matches c found ↔ ∃ inner, p.Matches c.pastSpaces inner ∧ found = inner.pastSpaces := by
  rw [Matches, run_token hc hp, Traced.exit_map_eq_returned_iff]
  constructor
  · rintro ⟨result, hresult, hfound⟩
    obtain ⟨inner, rfl, rfl⟩ := Option.map_eq_some_iff.mp hfound
    exact ⟨inner, hresult, rfl⟩
  · rintro ⟨inner, hinner, rfl⟩
    exact ⟨some inner, hinner, rfl⟩

theorem exit_token_eq_none_iff (hc : c.InReach) (hp : ∀ found, p.Matches c.pastSpaces found → found.rest.InReach) :
    ((token p).run c).exit = .returned none ↔ (p.run c.pastSpaces).exit = .returned none := by
  simp only [run_token hc hp, Traced.exit_map_eq_returned_iff, Option.map_eq_none_iff, exists_eq_right]

theorem inReach_of_matches_token (hc : c.InReach) (hp : ∀ found, p.Matches c.pastSpaces found → found.rest.InReach)
    (found : Parsed α) (h : (token p).Matches c found) : found.rest.InReach := by
  obtain ⟨inner, hinner, rfl⟩ := (matches_token_iff hc hp).mp h
  exact (hp inner hinner).pastSpaces

theorem head?_ne_of_matches_token (hc : c.InReach) (hp : ∀ found, p.Matches c.pastSpaces found → found.rest.InReach)
    {found : Parsed α} (h : (token p).Matches c found) : found.rest.head? ≠ some ' ' := by
  obtain ⟨inner, hinner, rfl⟩ := (matches_token_iff hc hp).mp h
  exact Cursor.head?_pastSpaces_ne (hp inner hinner)

theorem run_token_token (hc : c.InReach) (hp : ∀ found, p.Matches c.pastSpaces found → found.rest.InReach) :
    (token (token p)).run c = (token p).run c := by
  have hsame : c.pastSpaces.pastSpaces = c.pastSpaces := Cursor.pastSpaces_pastSpaces hc
  have hp' : ∀ found, p.Matches c.pastSpaces.pastSpaces found → found.rest.InReach := by rwa [hsame]
  rw [run_token hc (inReach_of_matches_token hc.pastSpaces hp'), run_token hc.pastSpaces hp', run_token hc hp, hsame]
  simp only [map_eq_pure_bind, bind_assoc, pure_bind]
  apply Traced.bind_congr_of_returned
  intro result hresult
  cases result with
  | none => rfl
  | some found =>
    have htrimmed := Cursor.pastSpaces_pastSpaces (hp found hresult)
    simp only [Option.map_some, Parsed.pastSpaces, htrimmed]

/-! ### Parsers that are watched, and scanners -/

theorem notes_run_watched (observe : Cursor → ω) : ((p.watched observe).run c).notes = observe c :: (p.run c).notes :=
  rfl

theorem Scans.nonneg_of_matches {scan : List Char → Option (α × List Char)} (h : Scans p scan) (hc : 0 ≤ c.offset)
    (found : Parsed α) (hmatch : p.Matches c found) : 0 ≤ found.rest.offset := by
  rw [Matches, h.run (Cursor.inReach_of_nonneg hc)] at hmatch
  obtain ⟨taken, -, rfl⟩ := Option.map_eq_some_iff.mp (Exit.returned.inj hmatch)
  rw [Cursor.parsed, Cursor.offset_upTo]
  omega

/-! ### Tokens of the grammar -/

theorem head?_ne_of_matches_symbol (hc : 0 ≤ c.offset) {sign : String} {found : Parsed Char}
    (h : (symbol sign : Parser ω Char).Matches c found) : found.rest.head? ≠ some ' ' := by
  have hstart := hc.trans c.offset_le_pastSpaces
  have hsign : ∀ found, (char sign : Parser ω Char).Matches c.pastSpaces found → found.rest.InReach :=
    fun found hmatch => Cursor.inReach_of_nonneg ((scans_satisfy _).nonneg_of_matches hstart found hmatch)
  exact head?_ne_of_matches_token (Cursor.inReach_of_nonneg hc) hsign h

theorem head?_ne_of_matches_number (hc : 0 ≤ c.offset) {found : Parsed Expr}
    (h : (Grammar.number : Parser ω Expr).Matches c found) : found.rest.head? ≠ some ' ' := by
  have hstart := hc.trans c.offset_le_pastSpaces
  have hliteral : ∀ found, (floating.orElse integer : Parser ω Double).Matches c.pastSpaces found → found.rest.InReach :=
    fun found hmatch => Cursor.inReach_of_nonneg (scans_literal.nonneg_of_matches hstart found hmatch)
  rw [Grammar.number, Grammar.watchedNumber, map_eq_bind] at h
  obtain ⟨literal, hmatch, hnumber⟩ := matches_bind_iff.mp h
  cases hnumber
  exact head?_ne_of_matches_token (Cursor.inReach_of_nonneg hc) hliteral hmatch

/-- A token applies its parser once, at the first place without a space, and it fails, breaks off or
gives a value as the parser does there. What it leaves is what the parser leaves, from the first
place without a space on. A second token around it makes no difference. -/
theorem token_trims_spaces_once (hc : 0 ≤ c.offset)
    (hp : ∀ found, p.Matches c.pastSpaces found → 0 ≤ found.rest.offset) :
    (∀ cursor later : Cursor, 0 ≤ cursor.offset → (cursor.FirstNonblank later ↔ later = cursor.pastSpaces)) ∧
    (token p).run c = Option.map Parsed.pastSpaces <$> p.run c.pastSpaces ∧
    (((token p).run c).exit = .returned none ↔ (p.run c.pastSpaces).exit = .returned none) ∧
    (∀ found, (token p).Matches c found ↔ ∃ inner, p.Matches c.pastSpaces inner ∧
      found = ⟨inner.value, inner.rest.pastSpaces⟩) ∧
    (∀ observe, ((token (p.watched observe)).run c).notes = observe c.pastSpaces :: (p.run c.pastSpaces).notes ∧
      (token (token (p.watched observe))).run c = (token (p.watched observe)).run c) ∧
    (token (token p)).run c = (token p).run c ∧
    (∀ found, (token p).Matches c found → found.rest.head? ≠ some ' ') ∧
    (∀ sign found, (symbol sign : Parser ω Char).Matches c found → found.rest.head? ≠ some ' ') ∧
    ∀ found, (Grammar.number : Parser ω Expr).Matches c found → found.rest.head? ≠ some ' ' := by
  have hreach : c.InReach := Cursor.inReach_of_nonneg hc
  have hrest : ∀ found, p.Matches c.pastSpaces found → found.rest.InReach :=
    fun found hmatch => Cursor.inReach_of_nonneg (hp found hmatch)
  have hwatched (observe : Cursor → ω) : ∀ found, (p.watched observe).Matches c.pastSpaces found → found.rest.InReach :=
    fun found hmatch => hrest found (matches_watched_iff.mp hmatch)
  refine ⟨fun cursor later h => Cursor.firstNonblank_iff h, run_token hreach hrest, exit_token_eq_none_iff hreach hrest,
    fun found => matches_token_iff hreach hrest, fun observe => ⟨?_, run_token_token hreach (hwatched observe)⟩,
    run_token_token hreach hrest, fun found => head?_ne_of_matches_token hreach hrest,
    fun sign found => head?_ne_of_matches_symbol hc, fun found => head?_ne_of_matches_number hc⟩
  rw [run_token hreach (hwatched observe), Traced.notes_map, notes_run_watched]

/-- Notes where it is applied, and steps back by one character. -/
def stepBack : Parser Int String :=
  (take (-1)).watched Cursor.offset

/-- Stepping back onto a space inside a token, once where the spaces before it end. -/
theorem token_around_stepBack : 0 ≤ (Cursor.ofString "  ab").offset ∧
    (∀ found, stepBack.Matches (Cursor.ofString "  ab").pastSpaces found → 0 ≤ found.rest.offset) ∧
    stepBack.run (Cursor.ofString "  ab").pastSpaces = ⟨[2], .returned (some ⟨"a", #[' ', ' ', 'a', 'b'], 1⟩)⟩ ∧
    (token stepBack).run (.ofString "  ab") = ⟨[2], .returned (some ⟨"a", #[' ', ' ', 'a', 'b'], 2⟩)⟩ ∧
    (token (token stepBack)).run (.ofString "  ab") = ⟨[2], .returned (some ⟨"a", #[' ', ' ', 'a', 'b'], 2⟩)⟩ := by
  have hc : 0 ≤ (Cursor.ofString "  ab").offset := Int.le_refl 0
  have hrun : stepBack.run (Cursor.ofString "  ab").pastSpaces =
      ⟨[2], .returned (some ⟨"a", #[' ', ' ', 'a', 'b'], 1⟩)⟩ := by decide
  have hp : ∀ found, stepBack.Matches (Cursor.ofString "  ab").pastSpaces found → 0 ≤ found.rest.offset := by
    intro found hmatch
    rw [Matches, hrun] at hmatch
    cases hmatch
    decide
  obtain ⟨-, htoken, -, -, -, htwice, -⟩ := token_trims_spaces_once hc hp
  rw [hrun] at htoken
  have hresult : (token stepBack).run (.ofString "  ab") =
      ⟨[2], .returned (some ⟨"a", #[' ', ' ', 'a', 'b'], 2⟩)⟩ := htoken.trans (by decide)
  exact ⟨hc, hp, hrun, hresult, htwice.trans hresult⟩

end Parser

end Reckoner
