import Mathlib
import Reckoner.Proofs.Parser.Forward

/-!
# Repetition as a recursion

A repetition is a loop with the values so far in hand. If every match moves forward inside the text
it is also a recursion: one match and a repetition after it, or nothing. Both are described by the
matches in a row that the parser has from a cursor on, each where the one before it has stopped. The
row ends at the first cursor where the parser does not match, and there it is decided whether the
repetition returns what was gathered or breaks off with what the parser broke off with.
-/

namespace Reckoner

namespace Parser

variable {ω α : Type}

/-! ### Parsers that advance -/

/-- To advance is to move on by one character at least. -/
theorem MovesOn.advances {p : Parser ω α} (h : p.MovesOn 1) : p.Advances := by
  intro c next hmatch
  have honward := h c next hmatch
  have hleast := honward.least_le
  have hmax := honward.le_max
  exact ⟨honward.text_eq, by omega, by omega⟩

theorem Advances.watched {p : Parser ω α} (h : p.Advances) (observe : Cursor → ω) : (p.watched observe).Advances :=
  fun c next hmatch => h c next (matches_watched_iff.mp hmatch)

/-! ### The loop and the recursion -/

theorem exit_repeatFrom_ne_none (p : Parser ω α) (rounds : Nat) (c : Cursor) (values : List α) (noted : List ω) :
    (p.repeatFrom rounds c values noted).exit ≠ .returned none := by
  induction rounds generalizing c values noted with
  | zero =>
    intro h
    cases h
  | succ rounds ih =>
    rw [repeatFrom]
    split
    · intro h
      cases h
    · exact ih _ _ _
    · intro h
      cases h
    · intro h
      cases h

theorem exit_many_ne_none (p : Parser ω α) (c : Cursor) : (p.many.run c).exit ≠ .returned none := by
  rw [many_run]
  exact p.exit_repeatFrom_ne_none _ _ _ _

theorem Advances.many_eq {p : Parser ω α} (h : p.Advances) : p.many = p.many1.orElse (.unit []) := by
  apply Parser.ext
  funext c
  rw [h.run_many]
  simp only [Parser.orElse, many1, Parser.bind, bind_assoc]
  apply Traced.bind_congr_of_returned
  intro result _
  cases result with
  | none => rfl
  | some first =>
    -- A choice after the first match would start again, but the repetition after it never fails.
    simp only [Parser.map, mapTraced, bind_assoc, pure_bind]
    apply Traced.bind_congr_of_returned
    intro more hmore
    cases more with
    | none => exact absurd hmore (p.exit_many_ne_none first.rest)
    | some rest => rfl

/-! ### One round -/

/-- One application of the parser, and what comes after a match from where the match has stopped. -/
def round (p : Parser ω α) (more : Cursor → Traced ω (Option (Parsed (List α)))) (c : Cursor) :
    Traced ω (Option (Parsed (List α))) := do
  match ← p.run c with
  | none => pure (some ⟨[], c⟩)
  | some first =>
    match ← more first.rest with
    | none => pure none
    | some rest => pure (some ⟨first.value :: rest.value, rest.rest⟩)

section

variable {p : Parser ω α} {more : Cursor → Traced ω (Option (Parsed (List α)))} {c : Cursor} {notes : List ω}

theorem Advances.run_many_eq_round (h : p.Advances) (c : Cursor) : p.many.run c = p.round p.many.run c :=
  h.run_many c

/-- A round without a match is the last one, whether the parser fails or breaks off. -/
theorem round_of_not_matches (h : ∀ next, ¬ p.Matches c next) :
    p.round more c = ⟨(p.run c).notes, (p.run c).exit >>= fun _ => .returned (some ⟨[], c⟩)⟩ := by
  rcases hrun : p.run c with ⟨notes, (_ | first) | fault | _⟩
  · simp [round, hrun, Traced.pure_def]
  · exact absurd (by rw [Matches, hrun]) (h first)
  · simp [round, hrun]
  · simp [round, hrun]

theorem round_of_some {first : Parsed α} {later : List ω} {exit : Exit (Option (Parsed (List α)))}
    (h : p.run c = ⟨notes, .returned (some first)⟩) (hmore : more first.rest = ⟨later, exit⟩) :
    p.round more c = ⟨notes ++ later,
      exit >>= fun result => .returned (result.map fun rest => ⟨first.value :: rest.value, rest.rest⟩)⟩ := by
  rcases exit with (_ | rest) | fault | _ <;> simp [round, h, hmore, Traced.pure_def]

end

/-! ### Matches in a row -/

theorem matches_of_run {p : Parser ω α} {c : Cursor} {notes : List ω} {found : Parsed α}
    (h : p.run c = ⟨notes, .returned (some found)⟩) : p.Matches c found := by
  rw [Matches, h]

/-- Matches in a row from the first cursor to the last one, each where the one before it has
stopped, and the notes they leave. -/
inductive InRow (p : Parser ω α) : Cursor → List ω → List (Parsed α) → Cursor → Prop
  | done (c : Cursor) : InRow p c [] [] c
  | next {c : Cursor} {notes later : List ω} {first : Parsed α} {found : List (Parsed α)} {last : Cursor}
    (hfirst : p.run c = ⟨notes, .returned (some first)⟩) (hrow : InRow p first.rest later found last) :
    InRow p c (notes ++ later) (first :: found) last

/-- From every cursor there are matches in a row up to one where the parser does not match, and the
repetition is these matches and this last application. -/
theorem Advances.exists_inRow {p : Parser ω α} (h : p.Advances) (c : Cursor) :
    ∃ notes found last, InRow p c notes found last ∧ (∀ next, ¬ p.Matches last next) ∧
      p.many.run c = ⟨notes ++ (p.run last).notes,
        (p.run last).exit >>= fun _ => .returned (some ⟨found.map Parsed.value, last⟩)⟩ := by
  -- Every match leaves less room for the next one.
  induction hroom : c.room using Nat.strong_induction_on generalizing c with
  | _ room ih =>
    by_cases hstop : ∀ next, ¬ p.Matches c next
    · exact ⟨[], [], c, .done c, hstop, (h.run_many_eq_round c).trans (round_of_not_matches hstop)⟩
    · push Not at hstop
      obtain ⟨first, hmatch⟩ := hstop
      have hfirst : p.run c = ⟨(p.run c).notes, .returned (some first)⟩ := Traced.ext rfl hmatch
      have hcloser : first.rest.room < room := hroom ▸ h.room_lt hmatch
      obtain ⟨later, found, last, hrow, hstop, hmore⟩ := ih first.rest.room hcloser first.rest rfl
      refine ⟨(p.run c).notes ++ later, first :: found, last, .next hfirst hrow, hstop, ?_⟩
      have hround := (h.run_many_eq_round c).trans (round_of_some hfirst hmore)
      rw [List.append_assoc, hround, bind_assoc]
      rfl

/-- There is one row of matches from a cursor to where the parser no longer matches. -/
theorem InRow.unique {p : Parser ω α} {c last last' : Cursor} {notes notes' : List ω} {found found' : List (Parsed α)}
    (h : InRow p c notes found last) (hstop : ∀ next, ¬ p.Matches last next)
    (h' : InRow p c notes' found' last') (hstop' : ∀ next, ¬ p.Matches last' next) :
    notes = notes' ∧ found = found' ∧ last = last' := by
  induction h generalizing notes' found' with
  | done c =>
    cases h' with
    | done => exact ⟨rfl, rfl, rfl⟩
    | next hfirst hrow => exact absurd (matches_of_run hfirst) (hstop _)
  | @next c notes later first found last hfirst hrow ih =>
    cases h' with
    | done => exact absurd (matches_of_run hfirst) (hstop' _)
    | next hfirst' hrow' =>
      obtain ⟨rfl, ⟨⟩⟩ := Traced.mk.inj (hfirst.symm.trans hfirst')
      obtain ⟨rfl, rfl, rfl⟩ := ih hstop hrow'
      exact ⟨rfl, rfl, rfl⟩

theorem Advances.matches_many_iff {p : Parser ω α} (h : p.Advances) {c : Cursor} {found : Parsed (List α)} :
    p.many.Matches c found ↔ ∃ notes matched, InRow p c notes matched found.rest ∧
      (p.run found.rest).exit = .returned none ∧ found.value = matched.map Parsed.value := by
  obtain ⟨notes, matched, last, hrow, hstop, hrun⟩ := h.exists_inRow c
  rw [Matches, hrun]
  constructor
  · intro hfound
    rcases hlast : (p.run last).exit with (_ | next) | fault | _
    · rw [hlast] at hfound
      obtain ⟨⟩ := hfound
      exact ⟨notes, matched, hrow, hlast, rfl⟩
    · exact absurd hlast (hstop next)
    · simp [hlast] at hfound
    · simp [hlast] at hfound
  · rintro ⟨notes', matched', hrow', hlast, hvalue⟩
    have hstop' : ∀ next, ¬ p.Matches found.rest next := by simp [Matches, hlast]
    obtain ⟨rfl, rfl, rfl⟩ := hrow.unique hstop hrow' hstop'
    simp [hlast, ← hvalue]

/-! ### One or more matches -/

theorem exit_map_eq_none_iff {β : Type} {p : Parser ω α} {c : Cursor} (f : α → β) :
    ((p.map f).run c).exit = .returned none ↔ (p.run c).exit = .returned none := by
  rcases hrun : p.run c with ⟨notes, (_ | first) | fault | _⟩ <;> simp [Parser.map, mapTraced, hrun]

/-- A sequence whose second part never fails fails exactly if the first part does. -/
theorem exit_bind_eq_none_iff {β : Type} {p : Parser ω α} {next : α → Parser ω β} {c : Cursor}
    (hnext : ∀ value c, ((next value).run c).exit ≠ .returned none) :
    ((p.bind next).run c).exit = .returned none ↔ (p.run c).exit = .returned none := by
  rcases hrun : p.run c with ⟨notes, (_ | first) | fault | _⟩
  · simp [run_bind_of_none hrun]
  · rw [run_bind_of_some hrun rfl]
    exact iff_of_false (hnext first.value first.rest) nofun
  · simp [run_bind_of_raised hrun]
  · simp [Parser.bind, hrun]

theorem exit_many1_eq_none_iff {p : Parser ω α} {c : Cursor} :
    (p.many1.run c).exit = .returned none ↔ (p.run c).exit = .returned none :=
  exit_bind_eq_none_iff fun _ c => mt (exit_map_eq_none_iff _).mp (p.exit_many_ne_none c)

theorem matches_many1_iff {p : Parser ω α} {c : Cursor} {found : Parsed (List α)} : p.many1.Matches c found ↔
    ∃ first more, p.Matches c first ∧ p.many.Matches first.rest more ∧
      found = ⟨first.value :: more.value, more.rest⟩ := by
  rw [many1, matches_bind_iff]
  refine exists_congr fun first => ?_
  rw [map_eq_bind, matches_bind_iff, ← exists_and_left]
  refine exists_congr fun more => ?_
  simp [Matches, run_unit, eq_comm]

/-- A repetition that moves forward never fails and goes on for ever only if its parser does. It is
the recursion that matches once and more, or nothing, with every note and fault at its place, also
if the parser is watched, and it gathers what the matches in a row give. -/
theorem Advances.repetition_is_recursion {p : Parser ω α} (h : p.Advances) :
    p.many = p.many1.orElse (.unit []) ∧
    (∀ observe, (p.watched observe).many = (p.watched observe).many1.orElse (.unit [])) ∧
    ∀ c, (p.many.run c).exit ≠ .returned none ∧
      ((p.many.run c).exit = .endless → ∃ last, (p.run last).exit = .endless) ∧
      (∃ notes found last, InRow p c notes found last ∧ (∀ next, ¬ p.Matches last next) ∧
        p.many.run c = ⟨notes ++ (p.run last).notes,
          (p.run last).exit >>= fun _ => .returned (some ⟨found.map Parsed.value, last⟩)⟩) ∧
      (∀ found, p.many.Matches c found ↔ ∃ notes matched, InRow p c notes matched found.rest ∧
        (p.run found.rest).exit = .returned none ∧ found.value = matched.map Parsed.value) ∧
      ((p.many1.run c).exit = .returned none ↔ (p.run c).exit = .returned none) ∧
      ∀ found, p.many1.Matches c found ↔ ∃ first more, p.Matches c first ∧ p.many.Matches first.rest more ∧
        found = ⟨first.value :: more.value, more.rest⟩ := by
  refine ⟨h.many_eq, fun observe => (h.watched observe).many_eq, fun c => ?_⟩
  obtain ⟨notes, found, last, hrow, hstop, hrun⟩ := h.exists_inRow c
  have hends : (p.many.run c).exit = .endless → ∃ last, (p.run last).exit = .endless := by
    intro hendless
    refine ⟨last, ?_⟩
    rw [hrun] at hendless
    cases hlast : (p.run last).exit <;> simp [hlast] at hendless ⊢
  exact ⟨p.exit_many_ne_none c, hends, ⟨notes, found, last, hrow, hstop, hrun⟩, fun _ => h.matches_many_iff,
    exit_many1_eq_none_iff, fun _ => matches_many1_iff⟩

/-- Notes every character up to a space, and breaks off at an exclamation mark. -/
def notedChar : Parser Char Char :=
  (satisfy (· != ' ')).mapTraced fun character =>
    if character = '!' then .raise (.undefinedRule "!") else ⟨[character], .returned character⟩

theorem notedChar_repeats_up_to_fault : notedChar.Advances ∧
    notedChar.many = notedChar.many1.orElse (.unit []) ∧
    ∃ notes found last, InRow notedChar (.ofString "12!3 4") notes found last ∧
      (∀ next, ¬ notedChar.Matches last next) ∧
      notedChar.many.run (.ofString "12!3 4") = ⟨notes ++ (notedChar.run last).notes,
        (notedChar.run last).exit >>= fun _ => .returned (some ⟨found.map Parsed.value, last⟩)⟩ := by
  have hadvances : notedChar.Advances := ((MovesOn.satisfy _).mapTraced _).advances
  have h := hadvances.repetition_is_recursion
  obtain ⟨-, -, hrow, -⟩ := h.2.2 (.ofString "12!3 4")
  exact ⟨hadvances, h.1, hrow⟩

end Parser

end Reckoner
