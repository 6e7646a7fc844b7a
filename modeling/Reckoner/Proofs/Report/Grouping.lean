import Mathlib
import Reckoner.Proofs.Double.Exact
import Reckoner.Proofs.Grammar.Layouts
import Reckoner.Proofs.Report.Reading

/-!
# Grouping to the right

The grammar groups chains of one operator to the right, and the usual way of reckoning groups them to
the left. With operations that are associative this makes no difference. The usual way is given here
without the grammar, as a machine that goes through the tokens once from left to right: within each
pair of parentheses that is open it keeps the sum of the products that are finished and the product
of the operands since the last `+`, and it carries each operation out as soon as its operand is there.

Going through the tokens of a derivation adds to what is kept the value that the tree of the
derivation has. For a product or a factor it is multiplied to the product that is kept, for a sum it
is added to the sum, and there the last product stays apart.
-/

namespace Reckoner

open Grammar

universe u

/-- What stands for the doubles, with two associative operations. -/
structure Arithmetic (M : Type u) where
  value : Double → M
  add : M → M → M
  mul : M → M → M
  add_assoc : ∀ x y z, add (add x y) z = add x (add y z)
  mul_assoc : ∀ x y z, mul (mul x y) z = mul x (mul y z)

/-- The rational number that a double stands for; zero for what is no number and for infinities. -/
def Double.toRat (x : Double) : ℚ :=
  match x.exact with
  | .finite negative absolute => Exact.signedValue negative absolute
  | .undefined | .infinite _ => 0

/-- Rational numbers, added and multiplied without rounding. -/
def Arithmetic.rational : Arithmetic ℚ where
  value := Double.toRat
  add x y := x + y
  mul x y := x * y
  add_assoc := Rat.add_assoc
  mul_assoc := Rat.mul_assoc

/-- What is kept within a pair of parentheses while an operand is looked for. -/
structure Pending (M : Type u) where
  /-- The sum of the products before the last `+`. -/
  terms : Option M
  /-- The product of the operands since then, up to the last `*`. -/
  factors : Option M

/-- Where the machine stands, with what is kept within the parentheses around. -/
inductive Reckoning (M : Type u)
  | beforeOperand (pending : Pending M) (outer : List (Pending M))
  | afterOperand (terms : Option M) (product : M) (outer : List (Pending M))

/-- One more operand on the right of those so far. -/
def joined {M : Type u} (operation : M → M → M) (left : Option M) (right : M) : M :=
  left.elim right fun so_far => operation so_far right

namespace Arithmetic

variable {M : Type u} (a : Arithmetic M)

def meaning? : Operator → Option (M → M → M)
  | .plus => some a.add
  | .times => some a.mul
  | .minus | .divide | .unspecified => none

/-- The value of a tree, if it has only operators that stand for the two operations. -/
def fold? : Expr → Option M
  | .number x => some (a.value x)
  | .node op left right => do
    let x ← fold? left
    let y ← fold? right
    let meaning ← a.meaning? op
    some (meaning x y)

def step : Reckoning M → Token → Option (Reckoning M)
  | .beforeOperand pending outer, .literal l =>
    some (.afterOperand pending.terms (joined a.mul pending.factors (a.value l.value)) outer)
  | .beforeOperand pending outer, .sign .opening => some (.beforeOperand ⟨none, none⟩ (pending :: outer))
  | .afterOperand terms product outer, .sign .times => some (.beforeOperand ⟨terms, some product⟩ outer)
  | .afterOperand terms product outer, .sign .plus =>
    some (.beforeOperand ⟨some (joined a.add terms product), none⟩ outer)
  | .afterOperand terms product (pending :: outer), .sign .closing =>
    some (.afterOperand pending.terms (joined a.mul pending.factors (joined a.add terms product)) outer)
  | _, _ => none

/-- The value of a sequence of tokens by the usual rules: parentheses first, `*` before `+`, and
equal operators from left to right. -/
def reckon? (tokens : List Token) : Option M :=
  match tokens.foldlM a.step (.beforeOperand ⟨none, none⟩ []) with
  | some (.afterOperand terms product []) => some (joined a.add terms product)
  | _ => none

/-- What going through the tokens of a rule does to what is kept. -/
def Delivers (rule : Rule) (tokens : List Token) (x : M) : Prop :=
  match rule with
  | .sum => ∀ terms outer, ∃ sum product,
    tokens.foldlM a.step (.beforeOperand ⟨terms, none⟩ outer) = some (.afterOperand sum product outer) ∧
      joined a.add sum product = joined a.add terms x
  | .product | .factor | .number => ∀ pending outer,
    tokens.foldlM a.step (.beforeOperand pending outer) =
      some (.afterOperand pending.terms (joined a.mul pending.factors x) outer)

end Arithmetic

theorem joined_joined {M : Type u} {operation : M → M → M}
    (h : ∀ x y z, operation (operation x y) z = operation x (operation y z)) (left : Option M) (x y : M) :
    operation (joined operation left x) y = joined operation left (operation x y) := by
  cases left with
  | none => rfl
  | some so_far => exact h so_far x y

namespace Arithmetic

variable {M : Type u} {a : Arithmetic M} {tokens others : List Token} {x y : M}

theorem Delivers.enclosed (h : a.Delivers .sum tokens x) :
    a.Delivers .factor (.sign .opening :: (tokens ++ [.sign .closing])) x := by
  intro pending outer
  obtain ⟨sum, product, hinside, hsame⟩ := h none (pending :: outer)
  simp only [List.foldlM_cons, List.foldlM_append, step, Option.bind_eq_bind, Option.bind_some, hinside]
  rw [hsame]
  rfl

theorem Delivers.product (h : a.Delivers .factor tokens x) (hmore : a.Delivers .product others y) :
    a.Delivers .product (tokens ++ .sign .times :: others) (a.mul x y) := by
  intro pending outer
  rw [List.foldlM_append, h pending outer]
  simp only [Option.bind_eq_bind, Option.bind_some, List.foldlM_cons, step]
  rw [hmore, ← joined_joined a.mul_assoc]
  rfl

theorem Delivers.sum_of_product (h : a.Delivers .product tokens x) : a.Delivers .sum tokens x :=
  fun terms outer => ⟨terms, x, h ⟨terms, none⟩ outer, rfl⟩

theorem Delivers.sum (h : a.Delivers .product tokens x) (hmore : a.Delivers .sum others y) :
    a.Delivers .sum (tokens ++ .sign .plus :: others) (a.add x y) := by
  intro terms outer
  obtain ⟨sum, product, hrest, hsame⟩ := hmore (some (joined a.add terms x)) outer
  refine ⟨sum, product, ?_, ?_⟩
  · rw [List.foldlM_append, h ⟨terms, none⟩ outer]
    exact hrest
  · rw [hsame, ← joined_joined a.add_assoc]
    rfl

theorem fold?_node {op : Operator} {meaning : M → M → M} {left right : Expr} (hmeaning : a.meaning? op = some meaning)
    (hleft : a.fold? left = some x) (hright : a.fold? right = some y) :
    a.fold? (.node op left right) = some (meaning x y) := by
  rw [fold?, hleft, hright, hmeaning]
  rfl

/-- The tree of a derivation has a value, and going through the tokens of the derivation delivers
it. -/
theorem exists_delivers (a : Arithmetic M) {rule : Rule} (d : Derivation rule) :
    ∃ x, a.fold? d.tree = some x ∧ a.Delivers rule d.tokens x := by
  induction d with
  | number l => exact ⟨a.value l.value, rfl, fun _ _ => rfl⟩
  | bare inner ih => exact ih
  | enclosed inner ih =>
    obtain ⟨x, hfold, hinside⟩ := ih
    exact ⟨x, hfold, hinside.enclosed⟩
  | @alone rule _ hchain operand ih =>
    obtain ⟨x, hfold, hoperand⟩ := ih
    refine ⟨x, hfold, ?_⟩
    cases rule with
    | sum =>
      cases hchain
      exact hoperand.sum_of_product
    | product =>
      cases hchain
      exact hoperand
    | factor | number => exact absurd hchain nofun
  | @chained rule _ hchain left right ihleft ihright =>
    obtain ⟨x, hfoldleft, hleft⟩ := ihleft
    obtain ⟨y, hfoldright, hright⟩ := ihright
    cases rule with
    | sum =>
      cases hchain
      exact ⟨a.add x y, fold?_node rfl hfoldleft hfoldright, hleft.sum hright⟩
    | product =>
      cases hchain
      exact ⟨a.mul x y, fold?_node rfl hfoldleft hfoldright, hleft.product hright⟩
    | factor | number => exact absurd hchain nofun

theorem reckon?_of_delivers (h : a.Delivers .sum tokens x) : a.reckon? tokens = some x := by
  obtain ⟨sum, product, hrun, hsame⟩ := h none []
  rw [reckon?, hrun]
  exact congrArg some hsame

end Arithmetic

/-- The text consists of these tokens, whatever the spaces between them. -/
def ConsistsOf (text : String) (tokens : List Token) : Prop :=
  ∃ layout : Layout tokens, layout.text = text.toList

theorem ConsistsOf.unique {text : String} {tokens others : List Token} (h : ConsistsOf text tokens)
    (hothers : ConsistsOf text others) : tokens = others := by
  obtain ⟨layout, htext⟩ := h
  obtain ⟨other, htext'⟩ := hothers
  exact layout.tokens_unique other (htext.trans htext'.symm)

/-- The tree of a text that is evaluated has the same value as the tokens of the text by the usual
rules, for all associative operations. -/
theorem tree_value_eq_reckoned {M : Type u} (a : Arithmetic M) (text : String) :
    ∃ report, Report.of text = .returned report ∧ (report.outcome = .evaluated →
      ∃ tree tokens x, report.tree = some tree ∧ (∀ others, ConsistsOf text others ↔ others = tokens) ∧
        a.fold? tree = some x ∧ a.reckon? tokens = some x) := by
  obtain ⟨report, hreport, hreads⟩ := Report.exists_reads text
  refine ⟨report, hreport, fun hevaluated => ?_⟩
  obtain ⟨d, hlaid, htree⟩ := hreads.exists_of_evaluated hevaluated
  obtain ⟨x, hfold, hdelivers⟩ := a.exists_delivers d
  have hconsists : ConsistsOf text d.tokens := d.exists_layout hlaid
  refine ⟨d.tree, d.tokens, x, htree, fun others => ⟨?_, ?_⟩, hfold, a.reckon?_of_delivers hdelivers⟩
  · exact fun hothers => hothers.unique hconsists
  · rintro rfl
    exact hconsists

/-- Chains of both operators, reckoned with rational numbers. -/
theorem rational_chains_reckoned : ∃ report tree tokens,
    Report.of "2*3*4 + (5+6)*7 + 8" = .returned report ∧ report.outcome = .evaluated ∧ report.tree = some tree ∧
    ConsistsOf "2*3*4 + (5+6)*7 + 8" tokens ∧ Arithmetic.rational.fold? tree = some 109 ∧
    Arithmetic.rational.reckon? tokens = some 109 := by
  let leaf (digit : Char) : Expr := .number (.ofDigits [digit] [])
  let products : Expr := .node .times (leaf '2') (.node .times (leaf '3') (leaf '4'))
  let group : Expr := .node .times (.node .plus (leaf '5') (leaf '6')) (leaf '7')
  let tree : Expr := .node .plus products (.node .plus group (leaf '8'))
  have hreport : Report.of "2*3*4 + (5+6)*7 + 8" = .returned ⟨"2*3*4 + (5+6)*7 + 8", .evaluated, some tree,
      some (.ofDigits ['1', '0', '9'] []), none⟩ := by decide +kernel
  have hfold : Arithmetic.rational.fold? tree = some 109 := by decide +kernel
  obtain ⟨report, hof, hvalue⟩ := tree_value_eq_reckoned Arithmetic.rational "2*3*4 + (5+6)*7 + 8"
  obtain rfl := Exit.returned.inj (hof.symm.trans hreport)
  obtain ⟨_, tokens, x, htree, htokens, hx, hreckoned⟩ := hvalue rfl
  obtain rfl := Option.some.inj htree
  obtain rfl := Option.some.inj (hx.symm.trans hfold)
  exact ⟨_, tree, tokens, hof, rfl, rfl, (htokens tokens).mpr rfl, hfold, hreckoned⟩

end Reckoner
