import Mathlib
import Reckoner.Expr.Grammar
import Reckoner.Proofs.Parser.CarryOver

/-!
# Recipes for parsers

A recipe says how a parser is put together from single characters by the combinators, with functions
that only compute, and by rules that are looked up by name when they are used. There may be any
number of rules, and they may name one another and themselves. So a rule can be followed only to a
certain depth: at most so many uses of rules lie inside one another, and a use that lies deeper is
endless. A parser comes to an end exactly if it does at some depth, and then a greater depth changes
nothing.
-/

namespace Reckoner

universe u

variable {ω : Type} {ι : Type u} {τ : ι → Type}

/-- How a parser is put together, where a rule with some name gives values of the type of this name.
-/
inductive Recipe (τ : ι → Type) : Type → Type (max 1 u)
  | anyChar : Recipe τ Char
  | unit {α : Type} (value : α) : Recipe τ α
  | fail {α : Type} : Recipe τ α
  | bind {α β : Type} (p : Recipe τ α) (next : α → Recipe τ β) : Recipe τ β
  | map {α β : Type} (f : α → β) (p : Recipe τ α) : Recipe τ β
  | filter {α : Type} (test : α → Bool) (p : Recipe τ α) : Recipe τ α
  | orElse {α : Type} (p q : Recipe τ α) : Recipe τ α
  | andThen {α β : Type} (p : Recipe τ α) (q : Recipe τ β) : Recipe τ β
  | skip {α β : Type} (p : Recipe τ α) (q : Recipe τ β) : Recipe τ α
  | satisfy (test : Char → Bool) : Recipe τ Char
  | char (expected : String) : Recipe τ Char
  | many {α : Type} (p : Recipe τ α) : Recipe τ (List α)
  | many1 {α : Type} (p : Recipe τ α) : Recipe τ (List α)
  | token {α : Type} (p : Recipe τ α) : Recipe τ α
  | symbol (sign : String) : Recipe τ Char
  | defer (name : ι) : Recipe τ (τ name)
  | chain {α : Type} (operand : Recipe τ α) (sign : String) (rhs : Recipe τ α) (node : α → α → α) : Recipe τ α

namespace Recipe

/-- The parser that is put together, given the parsers that the names of rules stand for. -/
def parser (rule : ∀ name, Parser ω (τ name)) {α : Type} : Recipe τ α → Parser ω α
  | anyChar => .anyChar
  | unit value => .unit value
  | fail => .fail
  | bind p next => (p.parser rule).bind fun value => (next value).parser rule
  | map f p => (p.parser rule).map f
  | filter test p => (p.parser rule).filter test
  | orElse p q => (p.parser rule).orElse (q.parser rule)
  | andThen p q => (p.parser rule).andThen (q.parser rule)
  | skip p q => (p.parser rule).skip (q.parser rule)
  | satisfy test => .satisfy test
  | char expected => .char expected
  | many p => (p.parser rule).many
  | many1 p => (p.parser rule).many1
  | token p => .token (p.parser rule)
  | symbol sign => .symbol sign
  | defer name => .defer fun _ => pure (rule name)
  | chain operand sign rhs node => Grammar.chain (operand.parser rule) sign (rhs.parser rule) node

/-- The parser for a rule, with at most the given number of uses of rules inside one another. -/
def ruleParser (rules : ∀ name, Recipe τ (τ name)) : Nat → ∀ name, Parser ω (τ name)
  | 0, _ => ⟨fun _ => .endless⟩
  | depth + 1, name => (rules name).parser (ruleParser rules depth)

/-- What a recipe does at a cursor, with at most the given number of uses of rules inside one
another. -/
def run (rules : ∀ name, Recipe τ (τ name)) (depth : Nat) {α : Type} (p : Recipe τ α) (c : Cursor) :
    Traced ω (Option (Parsed α)) :=
  (p.parser (ruleParser rules depth)).run c

end Recipe

namespace Parser.CarriesOver

theorem chain {α : Type} {operand operand' rhs rhs' : Parser ω α} (hoperand : CarriesOver operand operand')
    (sign : String) (hrhs : CarriesOver rhs rhs') (node : α → α → α) :
    CarriesOver (Grammar.chain operand sign rhs node) (Grammar.chain operand' sign rhs' node) := by
  apply hoperand.bind
  intro left
  exact (((symbol sign).andThen hrhs).map (node left)).orElse (unit left)

/-- Recipes carry over if the rules that they use do. -/
theorem recipe {rule rule' : ∀ name, Parser ω (τ name)} (h : ∀ name, CarriesOver (rule name) (rule' name))
    {α : Type} (p : Recipe τ α) : CarriesOver (p.parser rule) (p.parser rule') := by
  induction p with
  | anyChar => exact anyChar
  | unit value => exact unit value
  | fail => exact fail
  | bind p next ih ihnext => exact ih.bind ihnext
  | map f p ih => exact ih.map f
  | filter test p ih => exact ih.filter test
  | orElse p q ih ihq => exact ih.orElse ihq
  | andThen p q ih ihq => exact ih.andThen ihq
  | skip p q ih ihq => exact ih.skip ihq
  | satisfy test => exact satisfy test
  | char expected => exact char expected
  | many p ih => exact ih.many
  | many1 p ih => exact ih.many1
  | token p ih => exact ih.token
  | symbol sign => exact symbol sign
  | defer name => exact (h name).defer
  | chain operand sign rhs node ih ihrhs => exact ih.chain sign ihrhs node

theorem ruleParser (rules : ∀ name, Recipe τ (τ name)) {depth deeper : Nat} (h : depth ≤ deeper) (name : ι) :
    CarriesOver (Recipe.ruleParser rules depth name : Parser ω (τ name)) (Recipe.ruleParser rules deeper name) := by
  induction depth generalizing deeper name with
  | zero => exact endless _
  | succ depth ih =>
    obtain ⟨deeper, rfl⟩ : ∃ n, deeper = n + 1 := ⟨deeper - 1, by omega⟩
    exact recipe (ih (Nat.le_of_succ_le_succ h)) (rules name)

end Parser.CarriesOver

theorem Recipe.carriedOver_run (rules : ∀ name, Recipe τ (τ name)) {depth deeper : Nat} (h : depth ≤ deeper) {α : Type}
    (p : Recipe τ α) {c c' : Cursor} (hc : c.InReach) (hc' : c'.InReach) (hahead : c'.ahead = c.ahead) :
    Parser.CarriedOver c c' (p.run rules depth c : Traced ω (Option (Parsed α))) (p.run rules deeper c') :=
  (Parser.CarriesOver.recipe (Parser.CarriesOver.ruleParser rules h) p).run hc hc' hahead

end Reckoner
