import Mathlib
import Reckoner.Expr.Basic
import Reckoner.Proofs.Double.Division

/-!
# Evaluation

An expression stands for a number: a leaf for its own number, and an operation for the exact result
of what its operands stand for, rounded once. Evaluation gives this number. It breaks off for one
reason only, an operator without a meaning anywhere in the tree; in particular no division by zero
is a fault, however the zero comes about.
-/

namespace Reckoner

/-- The operation before rounding. -/
def Operator.exact? : Operator → Option (Exact → Exact → Exact)
  | plus => some .add
  | minus => some .sub
  | times => some .mul
  | divide => some .div
  | unspecified => none

/-- An operator has no meaning, or its meaning is its exact operation, rounded. -/
theorem Operator.meaning?_cases (op : Operator) : op = unspecified ∨ op ≠ unspecified ∧ ∃ meaning operation,
    op.meaning? = some meaning ∧ op.exact? = some operation ∧
    ∀ x y : Double, (operation x.exact y.exact).RoundsTo (meaning x y) := by
  cases op with
  | plus => exact .inr ⟨nofun, _, _, rfl, rfl, Double.add_roundsTo⟩
  | minus => exact .inr ⟨nofun, _, _, rfl, rfl, Double.sub_roundsTo⟩
  | times => exact .inr ⟨nofun, _, _, rfl, rfl, Double.mul_roundsTo⟩
  | divide => exact .inr ⟨nofun, _, _, rfl, rfl, Double.div_roundsTo⟩
  | unspecified => exact .inl rfl

namespace Expr

def operators : Expr → List Operator
  | number _ => []
  | node op left right => op :: (left.operators ++ right.operators)

/-- The expression stands for the number. -/
inductive Denotes : Expr → Double → Prop
  | number (x : Double) : Denotes (number x) x
  | node {op : Operator} {operation : Exact → Exact → Exact} {left right : Expr} {x y result : Double}
      (hop : op.exact? = some operation) (hleft : Denotes left x) (hright : Denotes right y)
      (hresult : (operation x.exact y.exact).RoundsTo result) : Denotes (node op left right) result

theorem Denotes.unique {e : Expr} {result result' : Double} (h : e.Denotes result) (h' : e.Denotes result') :
    result = result' := by
  induction h generalizing result' with
  | number x =>
    cases h'
    rfl
  | node hop _ _ hresult ihleft ihright =>
    cases h' with
    | node hop' hleft' hright' hresult' =>
      obtain rfl := Option.some.inj (hop.symm.trans hop')
      obtain rfl := ihleft hleft'
      obtain rfl := ihright hright'
      exact hresult.unique hresult'

/-- The operands are evaluated first, so a fault in one of them comes before one of the operator;
but all of them are the same fault. -/
theorem evaluate_cases (e : Expr) :
    .unspecified ∈ e.operators ∧ e.evaluate = .error .unspecifiedOperator ∨
    .unspecified ∉ e.operators ∧ ∃ result, e.evaluate = .ok result ∧ e.Denotes result := by
  induction e with
  | number x => exact .inr ⟨List.not_mem_nil, x, rfl, .number x⟩
  | node op left right ihleft ihright =>
    obtain ⟨hmem, hleft⟩ | ⟨hleftMem, x, hleft, hx⟩ := ihleft
    · exact .inl ⟨List.mem_cons_of_mem _ (List.mem_append_left _ hmem), by rw [evaluate, hleft]; rfl⟩
    obtain ⟨hmem, hright⟩ | ⟨hrightMem, y, hright, hy⟩ := ihright
    · exact .inl ⟨List.mem_cons_of_mem _ (List.mem_append_right _ hmem), by rw [evaluate, hleft, hright]; rfl⟩
    obtain rfl | ⟨hop, meaning, operation, hmeaning, hoperation, hrounds⟩ := op.meaning?_cases
    · exact .inl ⟨List.mem_cons_self, by rw [evaluate, hleft, hright]; rfl⟩
    · have hnotMem : .unspecified ∉ (node op left right).operators := by
        simp [operators, hop.symm, hleftMem, hrightMem]
      have hresult : (node op left right).evaluate = .ok (meaning x y) := by
        rw [evaluate, hleft, hright, hmeaning]
        rfl
      exact .inr ⟨hnotMem, _, hresult, .node hoperation hx hy (hrounds x y)⟩

end Expr

/-- An expression with an operator that has no meaning is the only one that is not evaluated, and
every other one is evaluated to the one number that it stands for. For every two numbers the quotient
is the rounded exact one: what division gives where it does not break off, and by the zeros, where it
does, no number for a zero and for what is no number, and else an infinity with the product of the
signs. -/
theorem evaluation_is_rounded_fold :
    (∀ e : Expr,
      (.unspecified ∈ e.operators → e.evaluate = .error .unspecifiedOperator) ∧
      (.unspecified ∉ e.operators → ∃ value, e.evaluate = .ok value ∧ ∀ result, e.Denotes result ↔ result = value)) ∧
    (∀ x y : Double, (x.exact.div y.exact).RoundsTo (x.div y)) ∧
    (∀ x y : Double, (∀ t, y ≠ .signed t .zero) → x.divide y = .ok (x.div y)) ∧
    (∀ (x : Double) t, x.divide (.signed t .zero) = .error .zeroDivisor) ∧
    (∀ t, Double.nan.div (.signed t .zero) = .nan) ∧
    (∀ s t, (Double.signed s .zero).div (.signed t .zero) = .nan) ∧
    ∀ s m t, m ≠ .zero → (Double.signed s m).div (.signed t .zero) = .signed (s != t) .infinity := by
  refine ⟨fun e => ?_, Double.div_roundsTo, fun x y hy => ?_, Double.divide_zero, Double.nan_div_zero,
    Double.zero_div_zero, fun s m t hm => Double.div_zero_of_ne_zero hm s t⟩
  · obtain ⟨hmem, hfault⟩ | ⟨hnotMem, value, hvalue, hdenotes⟩ := e.evaluate_cases
    · exact ⟨fun _ => hfault, fun hnotMem => absurd hmem hnotMem⟩
    · refine ⟨fun hmem => absurd hmem hnotMem, fun _ => ⟨value, hvalue, fun result => ?_⟩⟩
      constructor
      · exact fun hresult => hresult.unique hdenotes
      · rintro rfl
        exact hdenotes
  · rw [x.divide_of_ne_zero hy, x.div_of_ne_zero hy]

/-- A quotient by a product that is a negative zero, and the same quotient beside a faulty operand. -/
theorem quotient_by_negative_zero_evaluated : ∃ quotient faulty : Expr,
    .unspecified ∉ quotient.operators ∧ quotient.evaluate = .ok (.signed true .infinity) ∧
    quotient.Denotes (.signed true .infinity) ∧
    .unspecified ∈ faulty.operators ∧ faulty.evaluate = .error .unspecifiedOperator := by
  let zero : Expr := .number (.ofDigits ['0'] [])
  let one : Expr := .number (.ofDigits ['1'] [])
  let quotient : Expr := .node .divide one (.node .times zero (.node .minus zero one))
  let faulty : Expr := .node .plus quotient (.node .unspecified one one)
  have hnotMem : .unspecified ∉ quotient.operators := by decide
  have hmem : .unspecified ∈ faulty.operators := by decide
  have hresult : quotient.evaluate = .ok (.signed true .infinity) := by decide +kernel
  obtain ⟨value, hvalue, hdenotes⟩ := (evaluation_is_rounded_fold.1 quotient).2 hnotMem
  obtain rfl := Except.ok.inj (hvalue.symm.trans hresult)
  exact ⟨quotient, faulty, hnotMem, hresult, (hdenotes _).mpr rfl, hmem, (evaluation_is_rounded_fold.1 faulty).1 hmem⟩

end Reckoner
