import Mathlib
import Reckoner.Expr.Grammar
import Reckoner.Proofs.Text.Literal

/-!
# Derivations

The grammar as a set of derivations, apart from any way of reading them: a derivation spells a
sequence of tokens, and a text lays out such a sequence if it has the tokens in their order with any
number of spaces before and after each of them. Parentheses are tokens of a derivation but leave no
trace in its tree.
-/

namespace Reckoner

/-! ### Tokens -/

inductive Sign
  | plus
  | times
  | opening
  | closing
deriving DecidableEq

def Sign.char : Sign → Char
  | plus => '+'
  | times => '*'
  | opening => '('
  | closing => ')'

inductive Token
  | sign (s : Sign)
  | literal (l : Literal)
deriving DecidableEq

def Token.text : Token → List Char
  | sign s => [s.char]
  | literal l => l.text

theorem Token.text_ne_nil (token : Token) : token.text ≠ [] := by
  cases token with
  | sign s => exact List.cons_ne_nil _ _
  | literal l => exact l.text_ne_nil

/-- A text that has these tokens in this order, and besides them nothing but spaces between them and
at its ends. -/
inductive LaidOut : List Token → List Char → Prop
  | nil (count : Nat) : LaidOut [] (List.replicate count ' ')
  | cons (count : Nat) (token : Token) {tokens : List Token} {text : List Char} (h : LaidOut tokens text) :
    LaidOut (token :: tokens) (List.replicate count ' ' ++ (token.text ++ text))

namespace LaidOut

theorem spaces_append {tokens : List Token} {text : List Char} (count : Nat) (h : LaidOut tokens text) :
    LaidOut tokens (List.replicate count ' ' ++ text) := by
  cases h with
  | nil more =>
    rw [← List.replicate_add]
    exact .nil (count + more)
  | cons more token h =>
    rw [← List.append_assoc, ← List.replicate_add]
    exact .cons (count + more) token h

theorem append {tokens others : List Token} {text more : List Char} (h : LaidOut tokens text)
    (hmore : LaidOut others more) : LaidOut (tokens ++ others) (text ++ more) := by
  induction h with
  | nil count => exact hmore.spaces_append count
  | cons count token _ ih =>
    rw [List.append_assoc, List.append_assoc]
    exact .cons count token ih

theorem singleton (token : Token) (count : Nat) : LaidOut [token] (token.text ++ List.replicate count ' ') :=
  .cons 0 token (.nil count)

theorem exists_of_cons {token : Token} {tokens : List Token} {text : List Char} (h : LaidOut (token :: tokens) text) :
    ∃ count more, text = List.replicate count ' ' ++ (token.text ++ more) ∧ LaidOut tokens more := by
  cases h with
  | cons count _ h => exact ⟨count, _, rfl, h⟩

theorem exists_of_nil {text : List Char} (h : LaidOut [] text) : ∃ count, text = List.replicate count ' ' := by
  cases h with
  | nil count => exact ⟨count, rfl⟩

theorem exists_of_append (tokens others : List Token) {text : List Char} (h : LaidOut (tokens ++ others) text) :
    ∃ first second, text = first ++ second ∧ LaidOut tokens first ∧ LaidOut others second := by
  induction tokens generalizing text with
  | nil => exact ⟨[], text, rfl, .nil 0, h⟩
  | cons token tokens ih =>
    obtain ⟨count, more, rfl, hmore⟩ := exists_of_cons h
    obtain ⟨first, second, rfl, hfirst, hsecond⟩ := ih hmore
    refine ⟨List.replicate count ' ' ++ (token.text ++ first), second, ?_, .cons count token hfirst, hsecond⟩
    rw [List.append_assoc, List.append_assoc]

end LaidOut

/-! ### The rules -/

/-- A rule of operands in a row: what the operands are, the sign between them, and the operator it
stands for. -/
structure Chain where
  operand : Rule
  sign : Sign
  op : Operator

/-- A sum is a chain of products with `+`, and a product is a chain of factors with `*`. -/
def Rule.chain? : Rule → Option Chain
  | sum => some ⟨product, .plus, .plus⟩
  | product => some ⟨factor, .times, .times⟩
  | factor => none
  | number => none

/-- A number is a literal, a factor is a number or a sum in parentheses, and a chain is an operand
or an operand, the sign and a chain. -/
inductive Derivation : Rule → Type
  | number (l : Literal) : Derivation .number
  | bare (inner : Derivation .number) : Derivation .factor
  | enclosed (inner : Derivation .sum) : Derivation .factor
  | alone {rule : Rule} {k : Chain} (h : rule.chain? = some k) (operand : Derivation k.operand) : Derivation rule
  | chained {rule : Rule} {k : Chain} (h : rule.chain? = some k) (left : Derivation k.operand)
    (right : Derivation rule) : Derivation rule

namespace Derivation

def tokens {rule : Rule} : Derivation rule → List Token
  | number l => [.literal l]
  | bare inner => inner.tokens
  | enclosed inner => .sign .opening :: (inner.tokens ++ [.sign .closing])
  | alone _ operand => operand.tokens
  | chained (k := k) _ left right => left.tokens ++ .sign k.sign :: right.tokens

/-- A literal stands for the double that is read from it, and parentheses for what is inside them. -/
def tree {rule : Rule} : Derivation rule → Expr
  | number l => .number l.value
  | bare inner => inner.tree
  | enclosed inner => inner.tree
  | alone _ operand => operand.tree
  | chained (k := k) _ left right => .node k.op left.tree right.tree

end Derivation

end Reckoner
