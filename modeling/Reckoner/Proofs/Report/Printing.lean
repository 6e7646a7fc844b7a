import Mathlib
import Reckoner.Proofs.Double.Layout
import Reckoner.Proofs.Report.Reading

/-!
# Reading printed expressions

A printed operation stands in parentheses, so it is a factor, and so is a number. Hence the text of
an expression whose operators the grammar has, and whose numbers are written as literals, lays out a
derivation of a factor with this expression as its tree. In the text of any other expression there
is a character that no token has: the sign of another operator, or a letter or a minus of a number
that is not written as a literal.
-/

namespace Reckoner

namespace Expr

theorem textBefore_eq (e : Expr) (following : List Char) : e.textBefore following = e.text ++ following := by
  induction e generalizing following with
  | number x => rw [text, textBefore, textBefore, List.append_nil]
  | node op left right ihleft ihright =>
    rw [text, textBefore, textBefore, ihleft, ihleft (' ' :: op.sign :: _), ihright, ihright [')']]
    simp only [List.cons_append, List.append_assoc, List.nil_append]

theorem text_number (x : Double) : (number x).text = x.text := by
  rw [text, textBefore, List.append_nil]

theorem text_node (op : Operator) (left right : Expr) :
    (node op left right).text = '(' :: (left.text ++ ' ' :: op.sign :: ' ' :: (right.text ++ [')'])) := by
  rw [text, textBefore, textBefore_eq, textBefore_eq right]

/-- Every operator is one that the grammar has, and every number is written as digits, a point and
digits. -/
def Readable : Expr → Prop
  | number x => ∃ l : Literal, l.fraction ≠ [] ∧ x.text = l.text
  | node op left right => (op = .plus ∨ op = .times) ∧ left.Readable ∧ right.Readable

end Expr

/-! ### The characters of tokens -/

/-- The characters of a text that lays out tokens. -/
def isTokenChar (c : Char) : Bool :=
  c.isDigit || [' ', '.', '+', '*', '(', ')'].contains c

theorem Literal.isTokenChar (l : Literal) : ∀ c ∈ l.text, isTokenChar c = true := by
  intro c hc
  obtain hdigit | rfl := l.isDigit_or_eq_point hc
  · rw [Reckoner.isTokenChar, hdigit, Bool.true_or]
  · rfl

theorem Token.isTokenChar (token : Token) : ∀ c ∈ token.text, isTokenChar c = true := by
  cases token with
  | sign s => cases s <;> exact List.forall_mem_singleton.mpr rfl
  | literal l => exact l.isTokenChar

theorem LaidOut.isTokenChar {tokens : List Token} {text : List Char} (h : LaidOut tokens text) :
    ∀ c ∈ text, isTokenChar c = true := by
  have hspaces (count : Nat) : ∀ c ∈ List.replicate count ' ', Reckoner.isTokenChar c = true := by
    intro c hc
    rw [List.eq_of_mem_replicate hc]
    rfl
  induction h with
  | nil count => exact hspaces count
  | cons count token _ ih =>
    exact List.forall_mem_append.mpr ⟨hspaces count, List.forall_mem_append.mpr ⟨token.isTokenChar, ih⟩⟩

theorem isTokenChar_of_letter : ∀ c ∈ ['n', '-', 'i', 'e'], isTokenChar c = false := by
  intro c hc
  fin_cases hc <;> rfl

/-! ### Readable expressions -/

/-- Doubles that are written as literals are read back. -/
theorem Literal.value_eq_of_text {l : Literal} {x : Double} (h : x.text = l.text) : l.value = x := by
  obtain ⟨written, -, htext, hvalue⟩ | ⟨c, hc, hletter⟩ := x.exists_literal_or_mem_text
  · have hread := l.read?_text
    rw [← h, htext, written.read?_text] at hread
    rw [← Option.some.inj hread, hvalue]
  · rw [h] at hc
    exact absurd ((l.isTokenChar c hc).symm.trans (isTokenChar_of_letter c hletter)) nofun

theorem laidOut_operation {tokens others : List Token} {left right : List Char} (s : Sign)
    (hleft : LaidOut tokens left) (hright : LaidOut others right) :
    LaidOut (.sign .opening :: (tokens ++ .sign s :: others ++ [.sign .closing]))
      ('(' :: (left ++ ' ' :: s.char :: ' ' :: (right ++ [')']))) := by
  have hinside := hleft.append (.cons 1 (.sign s) (hright.spaces_append 1))
  have hclosed := LaidOut.cons 0 (.sign .opening) (hinside.append (.singleton (.sign .closing) 0))
  simpa only [List.replicate, Token.text, Sign.char, List.append_assoc, List.cons_append, List.nil_append,
    List.append_nil] using hclosed

theorem Expr.Readable.exists_factor {e : Expr} (h : e.Readable) :
    ∃ d : Derivation .factor, LaidOut d.tokens e.text ∧ d.tree = e := by
  induction e with
  | number x =>
    obtain ⟨l, -, htext⟩ := h
    refine ⟨.bare (.number l), ?_, ?_⟩
    · rw [Expr.text_number, htext, ← List.append_nil l.text]
      exact .singleton (.literal l) 0
    · exact congrArg Expr.number (Literal.value_eq_of_text htext)
  | node op left right ihleft ihright =>
    obtain ⟨hop, hleft, hright⟩ := h
    obtain ⟨first, hfirst, rfl⟩ := ihleft hleft
    obtain ⟨second, hsecond, rfl⟩ := ihright hright
    rw [Expr.text_node]
    have hproduct : Rule.product.chain? = some ⟨.factor, .times, .times⟩ := rfl
    have hsum : Rule.sum.chain? = some ⟨.product, .plus, .plus⟩ := rfl
    obtain rfl | rfl := hop
    · exact ⟨.enclosed (.chained hsum (.alone hproduct first) (.alone hsum (.alone hproduct second))),
        laidOut_operation .plus hfirst hsecond, rfl⟩
    · exact ⟨.enclosed (.alone hsum (.chained hproduct first (.alone hproduct second))),
        laidOut_operation .times hfirst hsecond, rfl⟩

/-- Only readable expressions are printed with nothing but characters of tokens. -/
theorem Expr.readable_of_isTokenChar {e : Expr} (h : ∀ c ∈ e.text, isTokenChar c = true) : e.Readable := by
  induction e with
  | number x =>
    rw [Expr.text_number] at h
    obtain ⟨l, hne, htext, -⟩ | ⟨c, hc, hletter⟩ := x.exists_literal_or_mem_text
    · exact ⟨l, hne, htext⟩
    · exact absurd ((h c hc).symm.trans (isTokenChar_of_letter c hletter)) nofun
  | node op left right ihleft ihright =>
    rw [Expr.text_node] at h
    have hsign : isTokenChar op.sign = true := h _ (by simp)
    refine ⟨?_, ihleft fun c hc => h c (by simp [hc]), ihright fun c hc => h c (by simp [hc])⟩
    cases op with
    | plus => exact .inl rfl
    | times => exact .inr rfl
    | minus | divide | unspecified => exact absurd hsign (by decide)

/-- The text of an expression is evaluated exactly if the expression is readable, and then its tree
is the expression again. -/
theorem report_of_render (e : Expr) : ∃ report, Report.of e.render = .returned report ∧
    (report.outcome = .evaluated ↔ e.Readable) ∧ (report.outcome = .evaluated → report.tree = some e) := by
  obtain ⟨report, hreport, hreads⟩ := Report.exists_reads e.render
  have htext : e.render.toList = e.text := String.toList_ofList
  have hreadable : report.outcome = .evaluated → e.Readable := by
    intro hevaluated
    obtain ⟨d, hlaid, -⟩ := hreads.exists_of_evaluated hevaluated
    rw [htext] at hlaid
    exact Expr.readable_of_isTokenChar hlaid.isTokenChar
  have hread : e.Readable → report.outcome = .evaluated ∧ report.tree = some e := by
    intro h
    obtain ⟨d, hlaid, rfl⟩ := h.exists_factor
    rw [← htext] at hlaid
    exact hreads.of_laidOut (d := .alone rfl (.alone rfl d)) hlaid
  exact ⟨report, hreport, ⟨hreadable, fun h => (hread h).1⟩, fun hevaluated => (hread (hreadable hevaluated)).2⟩

end Reckoner
