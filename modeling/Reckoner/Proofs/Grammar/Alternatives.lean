import Mathlib
import Reckoner.Proofs.Grammar.Course
import Reckoner.Proofs.Grammar.Reach
import Reckoner.Proofs.Parser.Laws

/-!
# Reading the left operand once

A chain can be written as two alternatives, an operand, the sign and a right-hand side, or else an
operand, and then the operand is read again for the second one. Reading it once gives the same: the
second alternative starts where the first one did, so it finds the operand that has been found
there, and this is what a chain goes back to.

For the grammar as a whole there is more to show, since the rules are what they are only in terms of
one another. Any parsers that satisfy the rules written with alternatives follow the course of the
grammar wherever a cursor is not before its text, by induction on the room that a cursor has; so they
do what the grammar does.
-/

namespace Reckoner

namespace Parser

variable {ω α : Type}

/-- A parser tried again after a continuation of it, and the continuation tried after it once. The
notes can differ only by those that the parser leaves a second time. -/
theorem run_orElse_self (p : Parser ω α) (next : α → Parser ω α) (c : Cursor) :
    (((p.bind next).orElse p).run c).exit = ((p.bind fun value => (next value).orElse (.unit value)).run c).exit ∧
    ((p.run c).notes = [] → (((p.bind next).orElse p).run c).notes =
      ((p.bind fun value => (next value).orElse (.unit value)).run c).notes) := by
  have hchoice := run_orElse_bind p next unit c
  rwa [bind_unit] at hchoice

end Parser

namespace Grammar

variable {ω α : Type}

/-- An operand, a sign and a right-hand side, or else an operand alone, which is read again. -/
def rereadChain (operand : Parser ω α) (sign : String) (rhs : Parser ω α) (node : α → α → α) : Parser ω α :=
  (operand.bind fun left => ((Parser.symbol sign).andThen rhs).map (node left)).orElse operand

theorem exit_rereadChain (operand rhs : Parser ω α) (sign : String) (node : α → α → α) (c : Cursor) :
    ((chain operand sign rhs node).run c).exit = ((rereadChain operand sign rhs node).run c).exit :=
  (Parser.run_orElse_self operand _ c).1.symm

theorem run_rereadChain_of_quiet {operand : Parser ω α} (rhs : Parser ω α) (sign : String) (node : α → α → α)
    {c : Cursor} (hquiet : (operand.run c).notes = []) :
    (rereadChain operand sign rhs node).run c = (chain operand sign rhs node).run c :=
  Traced.ext ((Parser.run_orElse_self operand _ c).2 hquiet) (Parser.run_orElse_self operand _ c).1

/-- Parsers for the rules of the grammar, each chain being written as two alternatives. -/
structure RereadRules (ω : Type) where
  sum : Parser ω Expr
  product : Parser ω Expr
  factor : Parser ω Expr
  sum_eq : sum = rereadChain product "+" sum (.node .plus)
  product_eq : product = rereadChain factor "*" product (.node .times)
  factor_eq : factor = (((Parser.symbol "(").andThen sum).skip (.symbol ")")).orElse number

/-! ### Following the course of the grammar -/

section

variable {rule : Rule} {c : Cursor} {run run' : Traced ω (Option (Parsed Expr))}

theorem FollowsQuietly.notes_eq_nil (h : FollowsQuietly rule c run) : run.notes = [] := by
  obtain ⟨visits, result, -, rfl⟩ := h.exists_course
  rfl

theorem FollowsQuietly.eq (h : FollowsQuietly rule c run) (h' : FollowsQuietly rule c run') : run = run' := by
  obtain ⟨visits, result, hcourse, rfl⟩ := h.exists_course
  obtain ⟨visits', result', hcourse', rfl⟩ := h'.exists_course
  rw [hcourse.result_unique hcourse']

theorem FollowsQuietly.exists_exit (h : FollowsQuietly rule c run) : ∃ result, run.exit = .returned result := by
  obtain ⟨visits, result, -, rfl⟩ := h
  exact ⟨_, rfl⟩

variable {operand rhs : Parser ω Expr}

theorem followsQuietly_rereadChain (hc : c.InReach) {k : Chain} (hchain : rule.chain? = some k)
    (hoperand : FollowsQuietly k.operand c (operand.run c)) (hrhs : FollowsFurtherOn (fun _ _ => []) rule c rhs) :
    FollowsQuietly rule c ((rereadChain operand (String.singleton k.sign.char) rhs (.node k.op)).run c) := by
  rw [run_rereadChain_of_quiet _ _ _ hoperand.notes_eq_nil]
  exact follows_chain watching_nothing hc hchain hoperand hrhs

variable {sum product : Parser ω Expr}

theorem followsQuietly_rereadProduct_step (hc : c.InReach) (hsum : FollowsFurtherOn (fun _ _ => []) .sum c sum)
    (hproduct : FollowsFurtherOn (fun _ _ => []) .product c product) : FollowsQuietly .product c
      ((rereadChain (watchedFactor (fun _ p => p) sum) "*" product (.node .times)).run c) :=
  followsQuietly_rereadChain hc (k := ⟨.factor, .times, .times⟩) rfl (follows_watchedFactor watching_nothing hc hsum)
    hproduct

theorem followsQuietly_rereadSum_step (hc : c.InReach) (hproduct : FollowsQuietly .product c (product.run c))
    (hsum : FollowsFurtherOn (fun _ _ => []) .sum c sum) :
    FollowsQuietly .sum c ((rereadChain product "+" sum (.node .plus)).run c) :=
  followsQuietly_rereadChain hc (k := ⟨.product, .plus, .plus⟩) rfl hproduct hsum

end

/-- Whatever satisfies the rules follows the course of the grammar. -/
theorem RereadRules.followsQuietly (rules : RereadRules ω) {c : Cursor} (hc : c.InReach) :
    FollowsQuietly .sum c (rules.sum.run c) ∧ FollowsQuietly .product c (rules.product.run c) := by
  induction hroom : c.room using Nat.strong_induction_on generalizing c with
  | _ room ih =>
    subst hroom
    have hsum : FollowsFurtherOn (fun _ _ => []) .sum c rules.sum :=
      fun c' hc' hcloser => (ih c'.room hcloser hc' rfl).1
    have hmore : FollowsFurtherOn (fun _ _ => []) .product c rules.product :=
      fun c' hc' hcloser => (ih c'.room hcloser hc' rfl).2
    have hproduct : FollowsQuietly .product c (rules.product.run c) := by
      rw [rules.product_eq, rules.factor_eq]
      exact followsQuietly_rereadProduct_step hc hsum hmore
    refine ⟨?_, hproduct⟩
    rw [rules.sum_eq]
    exact followsQuietly_rereadSum_step hc hproduct hsum

/-! ### The rules with alternatives, unrolled -/

def rereadProduct (sum : Parser ω Expr) : Parser ω Expr :=
  .recursive fun product => rereadChain (watchedFactor (fun _ p => p) sum) "*" product (.node .times)

def rereadSum : Parser ω Expr :=
  .recursive fun sum => rereadChain (rereadProduct sum) "+" sum (.node .plus)

theorem followsQuietly_rereadProduct {sum : Parser ω Expr} {c : Cursor} (hc : c.InReach)
    (hsum : FollowsFurtherOn (fun _ _ => []) .sum c sum) : FollowsQuietly .product c ((rereadProduct sum).run c) := by
  refine follows_recursive c.room ?_ hc (Nat.le_refl c.room)
  intro product c' hc' hroom hproduct
  exact followsQuietly_rereadProduct_step hc' (hsum.mono hroom) hproduct

theorem followsQuietly_rereadSum {c : Cursor} (hc : c.InReach) :
    FollowsQuietly .sum c ((rereadSum : Parser ω Expr).run c) := by
  refine follows_recursive c.room ?_ hc (Nat.le_refl c.room)
  intro sum c' hc' _ hsum
  exact followsQuietly_rereadSum_step hc' (followsQuietly_rereadProduct hc' hsum) hsum

/-- Before its text a recursive rule breaks off whatever it is unrolled to. -/
theorem recursive_eq {rule : Rule} {body : Parser ω Expr → Parser ω Expr}
    (hraised : ∀ p c, ¬c.InReach → (body p).run c = ⟨[], .raised .outOfRange⟩)
    (hrule : ∀ {c : Cursor}, c.InReach → FollowsQuietly rule c ((Parser.recursive body).run c))
    (hbody : ∀ {c : Cursor}, c.InReach → FollowsQuietly rule c ((body (Parser.recursive body)).run c)) :
    Parser.recursive body = body (Parser.recursive body) := by
  apply Parser.ext
  funext c
  by_cases hc : c.InReach
  · exact (hrule hc).eq (hbody hc)
  · rw [Parser.run_recursive, hraised _ c hc, hraised _ c hc]

theorem run_rereadChain_of_raised {operand : Parser ω α} (rhs : Parser ω α) (sign : String) (node : α → α → α)
    {c : Cursor} {notes : List ω} {fault : Fault} (h : operand.run c = ⟨notes, .raised fault⟩) :
    (rereadChain operand sign rhs node).run c = ⟨notes, .raised fault⟩ :=
  Parser.run_orElse_of_raised (Parser.run_bind_of_raised h)

theorem run_rereadProduct_of_not_inReach (sum : Parser ω Expr) {c : Cursor} (hc : ¬c.InReach) :
    (rereadProduct sum).run c = ⟨[], .raised .outOfRange⟩ := by
  rw [rereadProduct, Parser.run_recursive]
  exact run_rereadChain_of_raised _ _ _ (run_factor_of_not_inReach sum hc)

/-- The rules unrolled as the grammar is satisfy what they are unrolled from. -/
def RereadRules.unrolled : RereadRules ω where
  sum := rereadSum
  product := rereadProduct rereadSum
  factor := watchedFactor (fun _ p => p) rereadSum
  sum_eq := by
    apply recursive_eq
    · exact fun _ _ hc => run_rereadChain_of_raised _ _ _ (run_rereadProduct_of_not_inReach _ hc)
    · exact followsQuietly_rereadSum
    · intro c hc
      have hsum : FollowsFurtherOn (ω := ω) (fun _ _ => []) .sum c rereadSum :=
        fun _ hc' _ => followsQuietly_rereadSum hc'
      exact followsQuietly_rereadSum_step hc (followsQuietly_rereadProduct hc hsum) hsum
  product_eq := by
    have hsum (c : Cursor) : FollowsFurtherOn (ω := ω) (fun _ _ => []) .sum c rereadSum :=
      fun _ hc' _ => followsQuietly_rereadSum hc'
    have hproduct {c : Cursor} (hc : c.InReach) :
        FollowsQuietly .product c ((rereadProduct (ω := ω) rereadSum).run c) :=
      followsQuietly_rereadProduct hc (hsum c)
    apply recursive_eq
    · exact fun _ _ hc => run_rereadChain_of_raised _ _ _ (run_factor_of_not_inReach _ hc)
    · exact hproduct
    · intro c hc
      exact followsQuietly_rereadProduct_step hc (hsum c) fun _ hc' _ => hproduct hc'
  factor_eq := rfl

/-- A chain gives what its two alternatives give, and any parsers that satisfy the rules written
with alternatives read every text from every offset like the grammar. -/
theorem chain_agrees_with_alternatives :
    (∀ {ω α : Type} (operand rhs : Parser ω α) (sign : String) (node : α → α → α) (c : Cursor),
      ((chain operand sign rhs node).run c).exit =
        ((operand.bind fun left => ((Parser.symbol sign).andThen rhs).map fun right => node left right).orElse
          operand |>.run c).exit) ∧
    ∀ {ω : Type} (rules : RereadRules ω) (text : String) (offset : Nat), ∃ result,
      (rules.sum.run ((Cursor.ofString text).advance offset)).exit = .returned result ∧
      ((sum : Parser ω Expr).run ((Cursor.ofString text).advance offset)).exit = .returned result := by
  refine ⟨exit_rereadChain, ?_⟩
  intro ω rules text offset
  have hc : ((Cursor.ofString text).advance offset).InReach := by
    apply Cursor.inReach_of_nonneg
    simp [Cursor.ofString]
  have hreread := (rules.followsQuietly hc).1
  have hsum := followsQuietly_sum (ω := ω) hc
  obtain ⟨result, hresult⟩ := hreread.exists_exit
  exact ⟨result, hresult, hreread.eq hsum ▸ hresult⟩

theorem unrolled_alternatives_agree_inside_unclosed_text : ∃ result,
    ((RereadRules.unrolled : RereadRules Empty).sum.run ((Cursor.ofString "(((1) * 2 +").advance 1)).exit =
      .returned result ∧
    ((sum : Parser Empty Expr).run ((Cursor.ofString "(((1) * 2 +").advance 1)).exit = .returned result :=
  chain_agrees_with_alternatives.2 .unrolled "(((1) * 2 +" 1

end Grammar

end Reckoner
