import Mathlib
import Reckoner.Proofs.Grammar.Course
import Reckoner.Proofs.Grammar.Reach
import Reckoner.Proofs.Parser.Recipe

/-!
# Parsers see what lies ahead

From a cursor that is not before its text, a parser does what it does from the beginning of the text
that lies ahead of the cursor, and it moves by as much. This is a case of carrying over, since both
cursors have the same characters ahead. From a cursor before its text the rules of the grammar break
off.
-/

namespace Reckoner

universe u

namespace Cursor

/-- The beginning of the text that lies ahead. -/
def view (c : Cursor) : Cursor :=
  ⟨c.ahead.toArray, 0⟩

theorem inReach_view (c : Cursor) : c.view.InReach :=
  inReach_of_nonneg (Int.le_refl 0)

@[simp] theorem ahead_view (c : Cursor) : c.view.ahead = c.ahead := by
  simp [view, ahead]

theorem advance_offset_view_upTo (c : Cursor) (rest : List Char) :
    c.advance (c.view.upTo rest).offset = c.upTo rest := by
  rw [offset_upTo, ahead_view, upTo, show c.view.offset = 0 from rfl, Int.zero_add]

end Cursor

/-- What is found in the view of a cursor, as found from the cursor itself. -/
def Cursor.fromView {α : Type} (c : Cursor) (parsed : Parsed α) : Parsed α :=
  ⟨parsed.value, c.advance parsed.rest.offset⟩

theorem Parser.CarriedOver.exists_result_of_view {ω α : Type} {c : Cursor}
    {run run' : Traced ω (Option (Parsed α))} (h : CarriedOver c.view c run run') (hends : run.exit ≠ .endless) :
    ∃ result : Option (Parsed α), run = pure result ∧ run' = pure (result.map c.fromView) := by
  cases h with
  | endless => exact absurd rfl hends
  | failed => exact ⟨none, rfl, rfl⟩
  | @matched value rest hrest =>
    refine ⟨some ⟨value, c.view.upTo rest⟩, rfl, ?_⟩
    rw [Option.map_some, Cursor.fromView, Cursor.advance_offset_view_upTo]

/-- Seen from the view, a run that ends is the same at every depth from there on, and from the cursor
itself it gives the same. -/
theorem Recipe.exists_exit_of_view {ω : Type} {ι : Type u} {τ : ι → Type} (rules : ∀ name, Recipe τ (τ name))
    {α : Type} (p : Recipe τ α) {c : Cursor} (hc : c.InReach) {depth : Nat}
    (hends : (p.run rules depth c.view : Traced ω (Option (Parsed α))).exit ≠ .endless) :
    ∃ result : Option (Parsed α), ∀ deeper ≥ depth,
      (p.run rules deeper c.view : Traced ω (Option (Parsed α))).exit = .returned result ∧
      (p.run rules deeper c : Traced ω (Option (Parsed α))).exit = .returned (result.map c.fromView) := by
  have hhere {deeper : Nat} (h : deeper ≥ depth) :=
    (p.carriedOver_run (ω := ω) rules h c.inReach_view hc c.ahead_view.symm).exists_result_of_view hends
  have hview {deeper : Nat} (h : deeper ≥ depth) :=
    (p.carriedOver_run (ω := ω) rules h c.inReach_view c.inReach_view rfl).eq_of_ne_endless hends
  obtain ⟨result, hresult, -⟩ := hhere (Nat.le_refl depth)
  refine ⟨result, fun deeper hdeeper => ?_⟩
  obtain ⟨same, hsame, hrun⟩ := hhere hdeeper
  have hunique : same = result := by
    have hexit := congrArg Traced.exit (hsame.symm.trans hresult)
    simpa only [Traced.exit_pure, Exit.returned.injEq] using hexit
  subst hunique
  exact ⟨congrArg Traced.exit ((hview hdeeper).trans hresult), congrArg Traced.exit hrun⟩

namespace Grammar

/-- The rules of the grammar as parsers. -/
def parser {ω : Type} : Rule → Parser ω Expr
  | .sum => sum
  | .product => product
  | .factor => factor
  | .number => number

theorem followsQuietly_rule {ω : Type} (rule : Rule) {c : Cursor} (hc : c.InReach) :
    FollowsQuietly (ω := ω) rule c ((parser rule).run c) := by
  have hsum : FollowsFurtherOn (ω := ω) (fun _ _ => []) .sum c sum := fun _ hc' _ => followsQuietly_sum hc'
  cases rule with
  | sum => exact followsQuietly_sum hc
  | product => exact follows_watchedProduct watching_nothing hc hsum
  | factor => exact follows_watchedFactor watching_nothing hc hsum
  | number => exact follows_watchedNumber watching_nothing hc

theorem run_parser_of_not_inReach {ω : Type} (rule : Rule) {c : Cursor} (hc : ¬c.InReach) :
    (parser rule : Parser ω Expr).run c = ⟨[], .raised .outOfRange⟩ := by
  cases rule with
  | sum => exact run_sum_of_not_inReach hc
  | product => exact run_product_of_not_inReach sum hc
  | factor => exact run_factor_of_not_inReach sum hc
  | number => exact run_number_of_not_inReach hc

theorem exists_exit_of_view {ω : Type} (rule : Rule) {c : Cursor} (hc : c.InReach) : ∃ result,
    ((parser rule : Parser ω Expr).run c.view).exit = .returned result ∧
    ((parser rule : Parser ω Expr).run c).exit = .returned (result.map c.fromView) := by
  obtain ⟨visits, result, hcourse, hrun⟩ := followsQuietly_rule (ω := ω) rule hc
  obtain ⟨visits', result', hcourse', hrun'⟩ := followsQuietly_rule (ω := ω) rule c.inReach_view
  rw [Cursor.ahead_view] at hcourse'
  obtain rfl := hcourse'.result_unique hcourse
  refine ⟨_, congrArg Traced.exit hrun', ?_⟩
  rw [hrun, Option.map_map]
  refine congrArg Exit.returned (Option.map_congr fun found _ => ?_)
  exact congrArg _ (c.advance_offset_view_upTo found.2).symm

end Grammar

/-- A parser put together from single characters does at a cursor what it does at the beginning of
the text ahead, if that comes to an end, and so do the rules of the grammar, which always do. Before
the beginning of a text the rules raise a fault. -/
theorem parsers_see_what_lies_ahead {ω : Type} :
    (∀ {ι : Type u} {τ : ι → Type} (rules : ∀ name, Recipe τ (τ name)) {α : Type} (p : Recipe τ α) (c : Cursor)
      (depth : Nat), -(c.text.size : Int) ≤ c.offset →
      (p.run rules depth c.view : Traced ω (Option (Parsed α))).exit ≠ .endless →
      ∃ result : Option (Parsed α), ∀ deeper ≥ depth,
        (p.run rules deeper c.view : Traced ω (Option (Parsed α))).exit = .returned result ∧
        (p.run rules deeper c : Traced ω (Option (Parsed α))).exit = .returned (result.map c.fromView)) ∧
    (∀ (rule : Rule) (c : Cursor), -(c.text.size : Int) ≤ c.offset → ∃ result : Option (Parsed Expr),
      ((Grammar.parser rule : Parser ω Expr).run c.view).exit = .returned result ∧
      ((Grammar.parser rule : Parser ω Expr).run c).exit = .returned (result.map c.fromView)) ∧
    ∀ (rule : Rule) (c : Cursor), c.offset < -(c.text.size : Int) →
      ((Grammar.parser rule : Parser ω Expr).run c).exit = .raised .outOfRange := by
  refine ⟨?_, ?_, ?_⟩
  · exact fun rules α p c depth hc hends => p.exists_exit_of_view rules hc hends
  · exact fun rule c hc => Grammar.exists_exit_of_view rule hc
  · intro rule c hc
    rw [Grammar.run_parser_of_not_inReach rule (Int.not_le.mpr hc)]

/-- Parentheses inside one another, counted by a rule that uses itself. -/
def Recipe.nesting : Recipe (fun _ : Unit => Nat) Nat :=
  .orElse (.skip (.andThen (.char "(") (.map (· + 1) (.defer ()))) (.char ")")) (.unit 0)

/-- The last character of the text is read first, and then the text from its beginning. -/
theorem nesting_seen_from_last_character : ∃ result : Option (Parsed Nat), ∀ deeper ≥ 2,
    (Recipe.nesting.run (fun _ => .nesting) deeper (Cursor.view ⟨#[')', '('], -1⟩) : Traced Empty _).exit =
      .returned result ∧
    (Recipe.nesting.run (fun _ => .nesting) deeper ⟨#[')', '('], -1⟩ : Traced Empty _).exit =
      .returned (result.map (Cursor.fromView ⟨#[')', '('], -1⟩)) :=
  parsers_see_what_lies_ahead.1 (fun _ => .nesting) .nesting ⟨#[')', '('], -1⟩ 2 (by decide) (by decide)

end Reckoner
