import Mathlib
import Reckoner.Parser.Lexical
import Reckoner.Proofs.Parser.Repeat
import Reckoner.Proofs.Parser.Run
import Reckoner.Proofs.Parser.Scan

/-!
# Carrying a run over to another cursor

Two cursors with the same characters ahead look alike to a parser, wherever in their texts they
stand. One parser carries over to another if whatever it returns at a cursor, the other returns at
every cursor that looks like it, with as much of the text ahead left over. Nothing is said about the
other one where the first is endless, so a rule that is unrolled more often is allowed for as well.

Every combinator keeps this, and this is all there is to prove: what follows a match starts at two
cursors that look alike again.
-/

namespace Reckoner

namespace Parser

variable {ω α β : Type}

/-- The second run, at the second cursor, does what the first one does at the first cursor, unless
that is endless. -/
inductive CarriedOver (c c' : Cursor) :
    Traced ω (Option (Parsed α)) → Traced ω (Option (Parsed α)) → Prop
  | endless (run : Traced ω (Option (Parsed α))) : CarriedOver c c' .endless run
  | failed : CarriedOver c c' (pure none) (pure none)
  | matched (value : α) {rest : List Char} (h : rest <:+ c.ahead) :
    CarriedOver c c' (pure (some ⟨value, c.upTo rest⟩)) (pure (some ⟨value, c'.upTo rest⟩))

structure CarriesOver (p q : Parser ω α) : Prop where
  run : ∀ {c c' : Cursor}, c.InReach → c'.InReach → c'.ahead = c.ahead → CarriedOver c c' (p.run c) (q.run c')

theorem CarriedOver.eq_of_ne_endless {c : Cursor} {run run' : Traced ω (Option (Parsed α))}
    (h : CarriedOver c c run run') (hends : run.exit ≠ .endless) : run' = run := by
  cases h with
  | endless => exact absurd rfl hends
  | failed => rfl
  | matched value hrest => rfl

/-- What is carried over from further on is carried over from here. -/
theorem CarriedOver.from_upTo {c c' : Cursor} {rest : List Char} {run run' : Traced ω (Option (Parsed α))}
    (hc : c.InReach) (hc' : c'.InReach) (hahead : c'.ahead = c.ahead) (hrest : rest <:+ c.ahead)
    (h : CarriedOver (c.upTo rest) (c'.upTo rest) run run') : CarriedOver c c' run run' := by
  cases h with
  | endless => exact .endless run'
  | failed => exact .failed
  | matched value hfurther =>
    rw [Cursor.ahead_upTo hc hrest] at hfurther
    rw [Cursor.upTo_upTo hc hrest hfurther, Cursor.upTo_upTo hc' (hahead ▸ hrest) hfurther]
    exact .matched value (hfurther.trans hrest)

namespace CarriesOver

variable {p p' q q' : Parser ω α}

theorem run_upTo (h : CarriesOver p p') {c c' : Cursor} {rest : List Char} (hc : c.InReach) (hc' : c'.InReach)
    (hahead : c'.ahead = c.ahead) (hrest : rest <:+ c.ahead) :
    CarriedOver c c' (p.run (c.upTo rest)) (p'.run (c'.upTo rest)) := by
  apply CarriedOver.from_upTo hc hc' hahead hrest
  apply h.run (hc.upTo rest) (hc'.upTo rest)
  rw [Cursor.ahead_upTo hc hrest, Cursor.ahead_upTo hc' (hahead ▸ hrest)]

theorem endless (q : Parser ω α) : CarriesOver ⟨fun _ => .endless⟩ q :=
  ⟨fun _ _ _ => .endless _⟩

theorem unit (value : α) : CarriesOver (.unit value : Parser ω α) (.unit value) where
  run {c c'} _ _ hahead := by
    have hmatched : CarriedOver (ω := ω) c c' (pure (some ⟨value, c.upTo c.ahead⟩))
      (pure (some ⟨value, c'.upTo c.ahead⟩)) := .matched value (List.suffix_refl c.ahead)
    rwa [Cursor.upTo_ahead, ← hahead, Cursor.upTo_ahead] at hmatched

theorem fail : CarriesOver (.fail : Parser ω α) .fail :=
  ⟨fun _ _ _ => .failed⟩

theorem anyChar : CarriesOver (.anyChar : Parser ω Char) .anyChar where
  run {c c'} hc hc' hahead := by
    rw [run_anyChar hc, run_anyChar hc', hahead]
    cases hcase : c.ahead with
    | nil => exact .failed
    | cons character rest => exact .matched character (hcase ▸ List.suffix_cons character rest)

theorem bind (hp : CarriesOver p p') {next next' : α → Parser ω β}
    (hnext : ∀ value, CarriesOver (next value) (next' value)) :
    CarriesOver (p.bind next) (p'.bind next') where
  run {c c'} hc hc' hahead := by
    have hfirst := hp.run hc hc' hahead
    simp only [Parser.bind]
    generalize p.run c = first at hfirst ⊢
    generalize p'.run c' = first' at hfirst ⊢
    cases hfirst with
    | endless => exact .endless _
    | failed => exact .failed
    | matched value hrest =>
      rw [pure_bind, pure_bind]
      exact (hnext value).run_upTo hc hc' hahead hrest

theorem orElse (hp : CarriesOver p p') (hq : CarriesOver q q') : CarriesOver (p.orElse q) (p'.orElse q') where
  run {c c'} hc hc' hahead := by
    have hfirst := hp.run hc hc' hahead
    simp only [Parser.orElse]
    generalize p.run c = first at hfirst ⊢
    generalize p'.run c' = first' at hfirst ⊢
    cases hfirst with
    | endless => exact .endless _
    | failed =>
      rw [pure_bind, pure_bind]
      exact hq.run hc hc' hahead
    | matched value hrest => exact .matched value hrest

/-- Both repetitions have the same number of rounds, and a match takes one from each. -/
theorem repeatFrom (hp : CarriesOver p p') (rounds : Nat) :
    CarriesOver ⟨fun c => p.repeatFrom rounds c [] []⟩ ⟨fun c => p'.repeatFrom rounds c [] []⟩ := by
  induction rounds with
  | zero => exact endless _
  | succ rounds ih =>
    constructor
    intro c c' hc hc' hahead
    have hfirst := hp.run hc hc' hahead
    simp only [repeatFrom_succ]
    generalize p.run c = first at hfirst ⊢
    generalize p'.run c' = first' at hfirst ⊢
    cases hfirst with
    | endless => exact .endless _
    | failed => exact (unit (ω := ω) ([] : List α)).run hc hc' hahead
    | @matched value rest hrest =>
      have hmore : CarriedOver c c' (p.repeatFrom rounds (c.upTo rest) [] [])
          (p'.repeatFrom rounds (c'.upTo rest) [] []) :=
        ih.run_upTo hc hc' hahead hrest
      simp only [pure_bind]
      generalize p.repeatFrom rounds (c.upTo rest) [] [] = more at hmore ⊢
      generalize p'.repeatFrom rounds (c'.upTo rest) [] [] = more' at hmore ⊢
      cases hmore with
      | endless => exact .endless _
      | failed => exact .failed
      | matched values hfurther => exact .matched (value :: values) hfurther

theorem many (hp : CarriesOver p p') : CarriesOver p.many p'.many where
  run {c c'} hc hc' hahead := by
    have hroom : c'.room = c.room := by rw [← Cursor.length_ahead hc, ← Cursor.length_ahead hc', hahead]
    rw [many_run, many_run, hroom]
    exact (hp.repeatFrom (c.room + patience)).run hc hc' hahead

/-! ### The other combinators -/

theorem map (f : α → β) (hp : CarriesOver p p') : CarriesOver (p.map f) (p'.map f) := by
  rw [map_eq_bind, map_eq_bind]
  exact hp.bind fun value => unit (f value)

theorem filter (test : α → Bool) (hp : CarriesOver p p') : CarriesOver (p.filter test) (p'.filter test) := by
  rw [filter_eq_bind, filter_eq_bind]
  apply hp.bind
  intro value
  split
  · exact unit value
  · exact fail

theorem andThen (hp : CarriesOver p p') {r r' : Parser ω β} (hr : CarriesOver r r') :
    CarriesOver (p.andThen r) (p'.andThen r') :=
  hp.bind fun _ => hr

theorem skip (hp : CarriesOver p p') {r r' : Parser ω β} (hr : CarriesOver r r') :
    CarriesOver (p.skip r) (p'.skip r') :=
  hp.bind fun value => hr.map fun _ => value

theorem satisfy (test : Char → Bool) : CarriesOver (.satisfy test : Parser ω Char) (.satisfy test) :=
  anyChar.filter test

theorem char (expected : String) : CarriesOver (.char expected : Parser ω Char) (.char expected) :=
  satisfy fun character => expected == String.singleton character

theorem many1 (hp : CarriesOver p p') : CarriesOver p.many1 p'.many1 :=
  hp.bind fun first => hp.many.map (first :: ·)

theorem skipSpaces : CarriesOver (.skipSpaces : Parser ω Unit) .skipSpaces :=
  (char " ").many.map fun _ => ()

theorem token (hp : CarriesOver p p') : CarriesOver (.token p) (.token p') :=
  (skipSpaces.andThen hp).skip skipSpaces

theorem symbol (sign : String) : CarriesOver (.symbol sign : Parser ω Char) (.symbol sign) :=
  (char sign).token

theorem defer (hp : CarriesOver p p') : CarriesOver (.defer fun _ => pure p) (.defer fun _ => pure p') :=
  ⟨hp.run⟩

end CarriesOver

end Parser

end Reckoner
