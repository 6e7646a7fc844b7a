import Mathlib
import Reckoner.Expr.Grammar
import Reckoner.Proofs.Parser.Repeat
import Reckoner.Proofs.Parser.Run
import Reckoner.Proofs.Text.Ahead

/-!
# Before the beginning of a text

A cursor before the beginning of its text is not at the end, but there is no character at it either,
so asking for one raises a fault. Every rule begins by looking for spaces, hence by asking for a
character, and so no rule gets past such a cursor.
-/

namespace Reckoner

variable {ω : Type} {c : Cursor}

namespace Parser

variable {α : Type}

theorem run_anyChar_of_not_inReach (hc : ¬c.InReach) : (anyChar : Parser ω Char).run c = ⟨[], .raised .outOfRange⟩ := by
  unfold Cursor.InReach at hc
  have hend : ¬c.atEnd = true := by
    simp only [Cursor.atEnd, decide_eq_true_eq]
    omega
  have hposition : c.position < 0 := by
    rw [Cursor.position, if_pos (by omega)]
    omega
  have hhead : c.head? = none := if_pos hposition
  simp only [anyChar]
  rw [if_neg hend, hhead]
  rfl

theorem run_many_of_raised {p : Parser ω α} {fault : Fault} (h : p.run c = ⟨[], .raised fault⟩) :
    p.many.run c = ⟨[], .raised fault⟩ := by
  obtain ⟨rounds, hrounds⟩ := Nat.exists_eq_add_one_of_ne_zero (Nat.add_pos_right c.room patience_pos).ne'
  rw [many_run, hrounds, repeatFrom_succ, h, Traced.raised_bind]

theorem run_skipSpaces_of_not_inReach (hc : ¬c.InReach) :
    (skipSpaces : Parser ω Unit).run c = ⟨[], .raised .outOfRange⟩ := by
  rw [skipSpaces, char, satisfy]
  exact run_map_of_raised _ (run_many_of_raised (run_filter_of_raised _ (run_anyChar_of_not_inReach hc)))

theorem run_token_of_not_inReach (p : Parser ω α) (hc : ¬c.InReach) : (token p).run c = ⟨[], .raised .outOfRange⟩ := by
  rw [token, skip, andThen]
  exact run_bind_of_raised (run_bind_of_raised (run_skipSpaces_of_not_inReach hc))

end Parser

namespace Grammar

theorem run_number_of_not_inReach (hc : ¬c.InReach) : (number : Parser ω Expr).run c = ⟨[], .raised .outOfRange⟩ := by
  rw [number, watchedNumber]
  exact Parser.run_map_of_raised _ (Parser.run_token_of_not_inReach _ hc)

theorem run_factor_of_not_inReach (sum : Parser ω Expr) (hc : ¬c.InReach) :
    (watchedFactor (fun _ p => p) sum).run c = ⟨[], .raised .outOfRange⟩ := by
  rw [watchedFactor, Parser.skip, Parser.andThen, Parser.symbol]
  exact Parser.run_orElse_of_raised
    (Parser.run_bind_of_raised (Parser.run_bind_of_raised (Parser.run_token_of_not_inReach _ hc)))

theorem run_product_of_not_inReach (sum : Parser ω Expr) (hc : ¬c.InReach) :
    (watchedProduct (fun _ p => p) sum).run c = ⟨[], .raised .outOfRange⟩ := by
  rw [watchedProduct, Parser.run_recursive, chain]
  exact Parser.run_bind_of_raised (run_factor_of_not_inReach sum hc)

theorem run_sum_of_not_inReach (hc : ¬c.InReach) : (sum : Parser ω Expr).run c = ⟨[], .raised .outOfRange⟩ := by
  rw [sum, watchedSum, Parser.run_recursive, chain]
  exact Parser.run_bind_of_raised (run_product_of_not_inReach _ hc)

end Grammar

end Reckoner
