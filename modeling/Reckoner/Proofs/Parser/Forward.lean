import Mathlib
import Reckoner.Expr.Grammar
import Reckoner.Proofs.Parser.Laws
import Reckoner.Proofs.Parser.Parts
import Reckoner.Proofs.Parser.Scan

/-!
# Parsers that only move forward

A match leaves a cursor in the same text that is not before the one it started from, and not past the
end of the text either unless the match started there. How far a match moves at least is kept beside
this: one character for a parser that reads something, and none for a parser that may read nothing.
In a sequence these distances add up, so both what never goes back and what always advances are
found by one lemma for each combinator.
-/

namespace Reckoner

/-- The later cursor is in the same text, at least so many characters further on, and not past the
end of the text unless the first one is. -/
structure Cursor.Onward (least : Nat) (c later : Cursor) : Prop where
  text_eq : later.text = c.text
  least_le : c.offset + least ≤ later.offset
  le_max : later.offset ≤ max c.offset c.text.size

namespace Cursor.Onward

variable {least more : Nat} {c later last : Cursor}

theorem refl (c : Cursor) : c.Onward 0 c :=
  ⟨rfl, by omega, by omega⟩

theorem mono (h : c.Onward least later) (hle : more ≤ least) : c.Onward more later where
  text_eq := h.text_eq
  least_le := by
    have hleast := h.least_le
    omega
  le_max := h.le_max

theorem trans (h : c.Onward least later) (hlast : later.Onward more last) : c.Onward (least + more) last where
  text_eq := hlast.text_eq.trans h.text_eq
  least_le := by
    have hleast := h.least_le
    have hmore := hlast.least_le
    omega
  le_max := by
    have hmax := h.le_max
    have hlastMax := hlast.le_max
    rw [h.text_eq] at hlastMax
    omega

end Cursor.Onward

namespace Parser

variable {ω α β : Type}

/-- Every match ends at least so many characters further on. -/
def MovesOn (least : Nat) (p : Parser ω α) : Prop :=
  ∀ c found, p.Matches c found → c.Onward least found.rest

theorem Advances.movesOn {p : Parser ω α} (h : p.Advances) : p.MovesOn 1 := by
  intro c found hmatch
  obtain ⟨htext, hforward, hinside⟩ := h c found hmatch
  exact ⟨htext, by omega, by omega⟩

namespace MovesOn

variable {least more : Nat} {p q : Parser ω α}

theorem mono (h : p.MovesOn least) (hle : more ≤ least) : p.MovesOn more :=
  fun c found hmatch => (h c found hmatch).mono hle

theorem unit (value : α) : (unit value : Parser ω α).MovesOn 0 := by
  rintro c found ⟨⟩
  exact .refl c

theorem fail : (fail : Parser ω α).MovesOn least :=
  nofun

theorem endless : (⟨fun _ => .endless⟩ : Parser ω α).MovesOn least :=
  nofun

theorem anyChar : (anyChar : Parser ω Char).MovesOn 1 :=
  advances_anyChar.movesOn

theorem bind (h : p.MovesOn least) {next : α → Parser ω β} (hnext : ∀ value, (next value).MovesOn more) :
    (p.bind next).MovesOn (least + more) := by
  intro c found hmatch
  obtain ⟨first, hfirst, hfound⟩ := matches_bind_iff.mp hmatch
  exact (h c first hfirst).trans (hnext _ _ _ hfound)

theorem defer {look : Unit → Traced ω (Parser ω α)} (h : ∀ p, (look ()).exit = .returned p → p.MovesOn least) :
    (defer look).MovesOn least := by
  intro c found hmatch
  obtain ⟨p, hlook, hfound⟩ := hmatch.of_defer
  exact h p hlook c found hfound

theorem orElse (h : p.MovesOn least) (hq : q.MovesOn least) : (p.orElse q).MovesOn least := by
  intro c found hmatch
  obtain hfound | hfound := hmatch.of_orElse
  · exact h c found hfound
  · exact hq c found hfound

/-- However many rounds a repetition has, it ends where its last match does. -/
theorem repeatFrom (h : p.MovesOn 0) (rounds : Nat) :
    (⟨fun c => p.repeatFrom rounds c [] []⟩ : Parser ω (List α)).MovesOn 0 := by
  induction rounds with
  | zero => exact nofun
  | succ rounds ih =>
    intro c found hmatch
    unfold Matches at hmatch
    dsimp only at hmatch
    rw [repeatFrom_succ] at hmatch
    obtain ⟨_ | first, hfirst, hround⟩ := Traced.exit_bind_eq_returned_iff.mp hmatch
    · cases hround
      exact .refl c
    · obtain ⟨_ | after, hafter, hlast⟩ := Traced.exit_bind_eq_returned_iff.mp hround
      · cases hlast
      · cases hlast
        exact (h c first hfirst).trans (ih first.rest after hafter)

theorem many (h : p.MovesOn 0) : p.many.MovesOn 0 := by
  intro c found hmatch
  unfold Matches at hmatch
  rw [many_run] at hmatch
  exact h.repeatFrom _ c found hmatch

/-! ### The other combinators -/

theorem bindTraced (h : p.MovesOn least) {next : α → Traced ω (Parser ω β)}
    (hnext : ∀ value q, (next value).exit = .returned q → q.MovesOn more) : (p.bindTraced next).MovesOn (least + more) :=
  h.bind fun value => defer (hnext value)

theorem mapTraced (f : α → Traced ω β) (h : p.MovesOn least) : (p.mapTraced f).MovesOn least := by
  rw [mapTraced_eq_bindTraced]
  refine h.bindTraced fun value q hq => (?_ : q.MovesOn 0)
  obtain ⟨mapped, -, hunit⟩ := Traced.exit_bind_eq_returned_iff.mp hq
  cases hunit
  exact unit mapped

theorem filterTraced (test : α → Traced ω Bool) (h : p.MovesOn least) : (p.filterTraced test).MovesOn least := by
  rw [filterTraced_eq_bindTraced]
  refine h.bindTraced fun value q hq => (?_ : q.MovesOn 0)
  obtain ⟨accepted, -, hchoice⟩ := Traced.exit_bind_eq_returned_iff.mp hq
  cases hchoice
  split
  · exact unit value
  · exact fail

theorem map (f : α → β) (h : p.MovesOn least) : (p.map f).MovesOn least :=
  h.mapTraced _

theorem andThen (h : p.MovesOn least) {r : Parser ω β} (hr : r.MovesOn more) : (p.andThen r).MovesOn (least + more) :=
  h.bind fun _ => hr

theorem skip (h : p.MovesOn least) {r : Parser ω β} (hr : r.MovesOn more) : (p.skip r).MovesOn (least + more) :=
  h.bind fun value => hr.map fun _ => value

theorem satisfy (test : Char → Bool) : (satisfy test : Parser ω Char).MovesOn 1 :=
  (advances_satisfy test).movesOn

theorem char (expected : String) : (char expected : Parser ω Char).MovesOn 1 :=
  satisfy _

theorem many1 (h : p.MovesOn least) : p.many1.MovesOn least := by
  have hmore (first : α) : (p.many.map (first :: ·)).MovesOn 0 := (h.mono (Nat.zero_le least)).many.map _
  exact h.bind hmore

theorem skipSpaces : (skipSpaces : Parser ω Unit).MovesOn 0 :=
  ((char " ").mono (Nat.zero_le 1)).many.map fun _ => ()

theorem token (h : p.MovesOn least) : (token p).MovesOn least := by
  have hspaced := (skipSpaces.andThen h).skip skipSpaces
  rwa [Nat.zero_add, Nat.add_zero] at hspaced

theorem symbol (sign : String) : (symbol sign : Parser ω Char).MovesOn 1 :=
  (char sign).token

theorem chain {operand rhs : Parser ω α} (h : operand.MovesOn least) (sign : String) (hrhs : rhs.MovesOn 0)
    (node : α → α → α) : (Grammar.chain operand sign rhs node).MovesOn least := by
  have hafter (left : α) : ((((Parser.symbol sign).andThen rhs).map (node left)).orElse (.unit left)).MovesOn 0 := by
    have hright := ((symbol sign).andThen hrhs).map (node left)
    exact (hright.mono (Nat.zero_le _)).orElse (unit left)
  exact h.bind hafter

theorem of_unroll {body : Parser ω α → Parser ω α} (h : ∀ depth, (unroll body depth).MovesOn least) :
    (recursive body).MovesOn least :=
  fun c found hmatch => h (c.room + 1) c found hmatch

/-- A rule moves on as far as its body does whenever its uses do not go back. -/
theorem recursive {body : Parser ω α → Parser ω α} (hbody : ∀ p, p.MovesOn 0 → (body p).MovesOn least) :
    (recursive body).MovesOn least :=
  of_unroll (unroll_induction endless fun p h => hbody p (h.mono (Nat.zero_le least)))

end MovesOn

/-- A property of parsers that the single characters have and that every combinator keeps. -/
structure ClosedUnderCombinators (P : ∀ {α : Type}, Parser ω α → Prop) : Prop where
  anyChar : P anyChar
  unit : ∀ {α : Type} (value : α), P (unit value)
  fail : ∀ {α : Type}, P (fail : Parser ω α)
  bind : ∀ {α β : Type} {p : Parser ω α} {next : α → Parser ω β}, P p → (∀ value, P (next value)) → P (p.bind next)
  bindTraced : ∀ {α β : Type} {p : Parser ω α} {next : α → Traced ω (Parser ω β)}, P p →
    (∀ value q, (next value).exit = .returned q → P q) → P (p.bindTraced next)
  mapTraced : ∀ {α β : Type} {p : Parser ω α} (f : α → Traced ω β), P p → P (p.mapTraced f)
  filterTraced : ∀ {α : Type} {p : Parser ω α} (test : α → Traced ω Bool), P p → P (p.filterTraced test)
  orElse : ∀ {α : Type} {p q : Parser ω α}, P p → P q → P (p.orElse q)
  andThen : ∀ {α β : Type} {p : Parser ω α} {q : Parser ω β}, P p → P q → P (p.andThen q)
  skip : ∀ {α β : Type} {p : Parser ω α} {q : Parser ω β}, P p → P q → P (p.skip q)
  satisfy : ∀ test : Char → Bool, P (satisfy test)
  char : ∀ expected : String, P (char expected)
  many : ∀ {α : Type} {p : Parser ω α}, P p → P p.many
  many1 : ∀ {α : Type} {p : Parser ω α}, P p → P p.many1
  token : ∀ {α : Type} {p : Parser ω α}, P p → P (token p)
  symbol : ∀ sign : String, P (symbol sign)
  defer : ∀ {α : Type} {look : Unit → Traced ω (Parser ω α)}, (∀ p, (look ()).exit = .returned p → P p) → P (defer look)
  chain : ∀ {α : Type} {operand rhs : Parser ω α} (sign : String) (node : α → α → α), P operand → P rhs →
    P (Grammar.chain operand sign rhs node)

theorem closed_movesOn : ClosedUnderCombinators (ω := ω) fun p => p.MovesOn 0 where
  anyChar := MovesOn.anyChar.mono (Nat.zero_le 1)
  unit := .unit
  fail := .fail
  bind h hnext := h.bind hnext
  bindTraced h hnext := h.bindTraced hnext
  mapTraced := .mapTraced
  filterTraced := .filterTraced
  orElse := .orElse
  andThen h hq := h.andThen hq
  skip h hq := h.skip hq
  satisfy test := (MovesOn.satisfy test).mono (Nat.zero_le 1)
  char expected := (MovesOn.char expected).mono (Nat.zero_le 1)
  many := .many
  many1 := .many1
  token := .token
  symbol sign := (MovesOn.symbol sign).mono (Nat.zero_le 1)
  defer := .defer
  chain sign node hoperand hrhs := hoperand.chain sign hrhs node

end Parser

end Reckoner
