import Mathlib
import Reckoner.Proofs.Double.Characters
import Reckoner.Proofs.Double.ReadBack
import Reckoner.Proofs.Grammar.Reach
import Reckoner.Proofs.Report.Substitution

/-!
# What a printed expression tells

An expression can be told from its text, even with more text after it: a number ends before the
first space or parenthesis, and an operation has its operands one after the other, each of which is
told apart from what follows it in the same way. That a number may begin with a minus or have a plus
in its exponent does no harm, since an operator is only looked for after a space. Trees that are read
from a text have no negative numbers and nothing that is not a number as leaves, and such numbers are
equal if they are written alike.
-/

namespace Reckoner

namespace Expr

/-- The same shape, with the same operator at every node and leaves that are written alike. -/
def SameForm : Expr → Expr → Prop
  | number x, number y => x.text = y.text
  | node op left right, node op' left' right' => op = op' ∧ left.SameForm left' ∧ right.SameForm right'
  | _, _ => False

theorem SameForm.text_eq {a b : Expr} (h : a.SameForm b) (following : List Char) :
    a.textBefore following = b.textBefore following := by
  induction a generalizing b following with
  | number x =>
    cases b with
    | number y => rw [textBefore, textBefore, show x.text = y.text from h]
    | node => exact h.elim
  | node op left right ihleft ihright =>
    cases b with
    | number => exact h.elim
    | node op' left' right' =>
      obtain ⟨hop, hleft, hright⟩ := h
      rw [textBefore, textBefore, hop, ihright hright, ihleft hleft]

/-! ### Telling an expression from its text -/

/-- Nothing comes next, or a space or a closing parenthesis does. -/
def Ended (following : List Char) : Prop :=
  ∀ c ∈ following.head?, c = ' ' ∨ c = ')'

theorem ended_cons {c : Char} (h : c = ' ' ∨ c = ')') (following : List Char) : Ended (c :: following) := by
  rintro c' ⟨⟩
  exact h

variable {s t : List Char}

theorem Ended.not_isDoubleChar_head? (h : Ended s) : ∀ c ∈ s.head?, isDoubleChar c = false := by
  intro c hc
  obtain rfl | rfl := h c hc
  · rfl
  · rfl

/-- A number goes up to the first character that no number has. -/
theorem span_text_append (x : Double) (hs : Ended s) :
    (x.text ++ s).takeWhile isDoubleChar = x.text ∧ (x.text ++ s).dropWhile isDoubleChar = s := by
  have hx := x.isDoubleChar_text
  rw [List.takeWhile_append_of_pos hx, List.dropWhile_append_of_pos hx]
  cases s with
  | nil => simp
  | cons c s => simp [hs.not_isDoubleChar_head? c rfl]

theorem head?_text_append_ne (x : Double) (hs : Ended s) : (x.text ++ s).head? ≠ some '(' := by
  cases htext : x.text with
  | nil =>
    intro hopening
    obtain h | h := hs '(' hopening
    · exact absurd h (by decide)
    · exact absurd h (by decide)
  | cons c text =>
    rintro ⟨⟩
    have hopening := x.isDoubleChar_text '(' (by simp [htext])
    exact absurd hopening (by decide)

theorem sign_injective : Function.Injective Operator.sign := by
  intro op op' h
  cases op <;> cases op' <;> first | rfl | exact absurd h (by decide)

/-- An expression and what follows it are told apart. -/
theorem sameForm_of_textBefore_eq {a b : Expr} (hs : Ended s) (ht : Ended t) (h : a.textBefore s = b.textBefore t) :
    a.SameForm b ∧ s = t := by
  induction a generalizing b s t with
  | number x =>
    cases b with
    | number y =>
      rw [textBefore, textBefore] at h
      obtain ⟨htext, hrest⟩ := span_text_append x hs
      obtain ⟨htext', hrest'⟩ := span_text_append y ht
      rw [h] at htext hrest
      exact ⟨htext.symm.trans htext', hrest.symm.trans hrest'⟩
    | node op left right =>
      rw [textBefore, textBefore] at h
      exact absurd (congrArg List.head? h) (head?_text_append_ne x hs)
  | node op left right ihleft ihright =>
    cases b with
    | number y =>
      rw [textBefore, textBefore] at h
      exact absurd (congrArg List.head? h).symm (head?_text_append_ne y ht)
    | node op' left' right' =>
      rw [textBefore, textBefore] at h
      obtain ⟨hleft, hmiddle⟩ := ihleft (ended_cons (.inl rfl) _) (ended_cons (.inl rfl) _) (List.cons.inj h).2
      obtain ⟨hsign, hafter⟩ := List.cons.inj (List.cons.inj hmiddle).2
      obtain ⟨hright, hend⟩ :=
        ihright (ended_cons (.inr rfl) _) (ended_cons (.inr rfl) _) (List.cons.inj hafter).2
      exact ⟨⟨sign_injective hsign, hleft, hright⟩, (List.cons.inj hend).2⟩

theorem render_eq_render_iff {a b : Expr} : a.render = b.render ↔ a.SameForm b := by
  have hnone : Ended [] := fun c hc => absurd hc nofun
  rw [render, render, String.ofList_inj, text, text]
  constructor
  · exact fun h => (sameForm_of_textBefore_eq hnone hnone h).1
  · exact fun h => h.text_eq []

/-! ### Trees that were read -/

/-- No leaf is negative, not even a negative zero, and every leaf is a number. -/
def Unsigned (e : Expr) : Prop :=
  ∀ x ∈ e.leaves, ∃ m, x = .signed false m

theorem agrees_iff_sameForm {a b : Expr} (ha : a.Unsigned) (hb : b.Unsigned) : a.agrees b = true ↔ a.SameForm b := by
  induction a generalizing b with
  | number x =>
    cases b with
    | number y =>
      obtain ⟨m, rfl⟩ := ha x (List.mem_singleton.mpr rfl)
      obtain ⟨n, rfl⟩ := hb y (List.mem_singleton.mpr rfl)
      have htext : (Double.signed false m).text = (Double.signed false n).text ↔ m = n := by
        rw [Double.text_injective.eq_iff, Double.signed.injEq]
        simp
      have hrank : m.rank = n.rank ↔ m = n := ⟨Magnitude.ext, congrArg Magnitude.rank⟩
      simp [agrees, Double.agrees, SameForm, htext, hrank]
    | node => simp [agrees, SameForm]
  | node op left right ihleft ihright =>
    cases b with
    | number => simp [agrees, SameForm]
    | node op' left' right' =>
      obtain ⟨hleft, hright⟩ := List.forall_mem_append.mp ha
      obtain ⟨hleft', hright'⟩ := List.forall_mem_append.mp hb
      simp [agrees, SameForm, ihleft hleft hleft', ihright hright hright', and_assoc]

end Expr

theorem Derivation.unsigned_tree {rule : Rule} (d : Derivation rule) : d.tree.Unsigned := by
  intro x hx
  rw [d.leaves_tree] at hx
  obtain ⟨l, -, rfl⟩ := List.mem_map.mp hx
  exact ⟨_, rfl⟩

/-- Whatever the cursor, a sum that is read has an unsigned tree. -/
theorem Grammar.unsigned_of_run_sum {ω : Type} {c : Cursor} {parsed : Parsed Expr}
    (h : ((sum : Parser ω Expr).run c).exit = .returned (some parsed)) : parsed.value.Unsigned := by
  by_cases hc : c.InReach
  · obtain ⟨visits, result, -, hrun⟩ := (followsQuietly_sum (ω := ω) hc).exists_course
    rw [hrun] at h
    obtain ⟨found, -, rfl⟩ := Option.map_eq_some_iff.mp (Exit.returned.inj h)
    exact found.1.unsigned_tree
  · rw [run_sum_of_not_inReach hc] at h
    exact absurd h nofun

/-- Two expressions have the same text exactly if they have the same form, and two trees that were
read, wherever and from whatever texts, are equal exactly if they have the same text. -/
theorem render_determines_tree {ω : Type} :
    (∀ a b : Expr, a.render = b.render ↔ a.SameForm b) ∧
    ∀ (c c' : Cursor) (first second : Parsed Expr),
      ((Grammar.sum : Parser ω Expr).run c).exit = .returned (some first) →
      ((Grammar.sum : Parser ω Expr).run c').exit = .returned (some second) →
      (first.value.agrees second.value = true ↔ first.value.render = second.value.render) := by
  refine ⟨fun a b => Expr.render_eq_render_iff, ?_⟩
  intro c c' first second hfirst hsecond
  rw [Expr.render_eq_render_iff]
  exact Expr.agrees_iff_sameForm (Grammar.unsigned_of_run_sum hfirst) (Grammar.unsigned_of_run_sum hsecond)

/-- Zeros and parentheses that make no difference, and more text after the match. -/
theorem products_of_two_texts_agree : ∃ first second : Parsed Expr,
    ((Grammar.sum : Parser Empty Expr).run (.ofString "02.0*3")).exit = .returned (some first) ∧
    ((Grammar.sum : Parser Empty Expr).run (.ofString "2 *(3)+")).exit = .returned (some second) ∧
    first.value.agrees second.value = true ∧ first.value.render = second.value.render := by
  let first : Expr := .node .times (.number (.ofDigits ['0', '2'] ['0'])) (.number (.ofDigits ['3'] []))
  let second : Expr := .node .times (.number (.ofDigits ['2'] [])) (.number (.ofDigits ['3'] []))
  have hfirst : ((Grammar.sum : Parser Empty Expr).run (.ofString "02.0*3")).exit =
      .returned (some ⟨first, Cursor.ofString "02.0*3" |>.advance 6⟩) := rfl
  have hsecond : ((Grammar.sum : Parser Empty Expr).run (.ofString "2 *(3)+")).exit =
      .returned (some ⟨second, Cursor.ofString "2 *(3)+" |>.advance 6⟩) := rfl
  have hagrees : first.agrees second = true := by decide +kernel
  exact ⟨_, _, hfirst, hsecond, hagrees, (render_determines_tree.2 _ _ _ _ hfirst hsecond).mp hagrees⟩

end Reckoner
