import Mathlib
import Reckoner.Proofs.Grammar.Layouts
import Reckoner.Proofs.Report.Reading

/-!
# Putting a sum in place of a literal

A literal in a text that is evaluated can be replaced by a text in parentheses that is evaluated
too. Nothing around it is grouped in another way: a literal is a factor, and a sum in parentheses is
one as well, so what stands in its place is found by going down the derivation of the text to the
factor that has the literal. Which leaf of the tree that is, the text itself tells: each of its
longest runs of digits and points is a literal, and the literals are the leaves from left to right.
-/

namespace Reckoner

open Grammar

/-! ### Leaves of trees -/

namespace Expr

/-- The numbers in the expression, from left to right. -/
def leaves : Expr → List Double
  | number x => [x]
  | node _ left right => left.leaves ++ right.leaves

/-- The expression with another one in the place of a leaf; the leaves are counted from left to
right. -/
def replaceLeaf : Expr → Nat → Expr → Expr
  | number _, 0, replacement => replacement
  | number x, _ + 1, _ => number x
  | node op left right, index, replacement =>
    if index < left.leaves.length then node op (left.replaceLeaf index replacement) right
    else node op left (right.replaceLeaf (index - left.leaves.length) replacement)

variable {op : Operator} {left right replacement : Expr} {index : Nat}

theorem replaceLeaf_node_left (h : index < left.leaves.length) :
    (node op left right).replaceLeaf index replacement = node op (left.replaceLeaf index replacement) right := by
  rw [replaceLeaf, if_pos h]

theorem replaceLeaf_node_right :
    (node op left right).replaceLeaf (left.leaves.length + index) replacement =
      node op left (right.replaceLeaf index replacement) := by
  rw [replaceLeaf, if_neg (Nat.not_lt.mpr (Nat.le_add_right _ _)), Nat.add_sub_cancel_left]

end Expr

/-! ### Literals among tokens -/

def literals (tokens : List Token) : List Literal :=
  tokens.filterMap Token.literal?

@[simp] theorem literals_append (tokens others : List Token) :
    literals (tokens ++ others) = literals tokens ++ literals others :=
  List.filterMap_append

@[simp] theorem literals_sign_cons (s : Sign) (tokens : List Token) : literals (.sign s :: tokens) = literals tokens :=
  rfl

@[simp] theorem literals_literal_cons (l : Literal) (tokens : List Token) :
    literals (.literal l :: tokens) = l :: literals tokens :=
  rfl

@[simp] theorem literals_nil : literals [] = [] :=
  rfl

/-- The leaves of the tree are what the literals of the derivation stand for. -/
theorem Derivation.leaves_tree {rule : Rule} (d : Derivation rule) :
    d.tree.leaves = (literals d.tokens).map Literal.value := by
  induction d with
  | number l => rfl
  | bare inner ih | alone _ inner ih => exact ih
  | enclosed inner ih => simpa [tree, tokens] using ih
  | chained hchain left right ihleft ihright => simp [tree, tokens, Expr.leaves, ihleft, ihright]

theorem Derivation.length_leaves_tree {rule : Rule} (d : Derivation rule) :
    d.tree.leaves.length = (literals d.tokens).length := by
  rw [d.leaves_tree, List.length_map]

section

variable {first second before after : List Token} {s : Sign} {l : Literal}

/-- A literal stands before a sign or after it. -/
theorem exists_of_sign_of_literal (h : first ++ .sign s :: second = before ++ .literal l :: after) :
    (∃ between, first = before ++ .literal l :: between ∧ after = between ++ .sign s :: second) ∨
      ∃ between, before = first ++ .sign s :: between ∧ second = between ++ .literal l :: after := by
  obtain ⟨others, rfl, hothers⟩ | ⟨others, rfl, hothers⟩ := List.append_eq_append_iff.mp h
  · obtain ⟨-, hliteral⟩ | ⟨between, rfl, hsecond⟩ := List.cons_eq_append_iff.mp hothers
    · exact absurd (List.cons.inj hliteral).1 nofun
    · exact .inr ⟨between, rfl, hsecond⟩
  · obtain ⟨-, hsign⟩ | ⟨between, rfl, hafter⟩ := List.cons_eq_append_iff.mp hothers
    · exact absurd (List.cons.inj hsign).1 nofun
    · exact .inl ⟨between, rfl, hafter⟩

theorem operand_ne_number_of_chain {rule : Rule} {k : Chain} (h : rule.chain? = some k) : k.operand ≠ .number := by
  cases rule <;> cases h <;> decide

/-- A sum in parentheses can stand wherever a derivation has a literal, and in the tree only the
leaf of this literal changes. -/
theorem Derivation.exists_replaced {rule : Rule} (d : Derivation rule) (inner : Derivation .sum)
    (hrule : rule ≠ .number) (h : d.tokens = before ++ .literal l :: after) :
    ∃ d' : Derivation rule, d'.tokens = before ++ ((enclosed inner).tokens ++ after) ∧
      d'.tree = d.tree.replaceLeaf (literals before).length inner.tree := by
  induction d generalizing before after with
  | number => exact absurd rfl hrule
  | bare number =>
    obtain ⟨l', rfl⟩ := number.exists_eq_number
    obtain ⟨rfl, hsame⟩ | ⟨_, -, hnil⟩ := List.cons_eq_append_iff.mp h
    · obtain rfl := (List.cons.inj hsame).2
      exact ⟨enclosed inner, (List.append_nil _).symm, rfl⟩
    · simp at hnil
  | enclosed outer ih =>
    -- The literal stands after the opening sign and before the closing one.
    have hopening : [] ++ .sign .opening :: (outer.tokens ++ [.sign .closing]) = before ++ .literal l :: after := h
    obtain ⟨_, hnil, -⟩ | ⟨more, rfl, hmore⟩ := exists_of_sign_of_literal hopening
    · simp at hnil
    · obtain ⟨between, houter, rfl⟩ | ⟨_, -, hnil⟩ := exists_of_sign_of_literal hmore
      · obtain ⟨d', htokens, htree⟩ := ih (by decide) houter
        refine ⟨enclosed d', ?_, htree⟩
        simp [tokens, htokens]
      · simp at hnil
  | alone hchain operand ih =>
    obtain ⟨d', htokens, htree⟩ := ih (operand_ne_number_of_chain hchain) h
    exact ⟨alone hchain d', htokens, htree⟩
  | @chained rule k hchain left right ihleft ihright =>
    obtain ⟨between, hleft, rfl⟩ | ⟨between, rfl, hright⟩ := exists_of_sign_of_literal h
    · obtain ⟨d', htokens, htree⟩ := ihleft (operand_ne_number_of_chain hchain) hleft
      refine ⟨chained hchain d' right, ?_, ?_⟩
      · simp [tokens, htokens]
      · have hindex : (literals before).length < left.tree.leaves.length := by
          simp [left.length_leaves_tree, hleft]
        rw [tree, tree, Expr.replaceLeaf_node_left hindex, htree]
    · obtain ⟨d', htokens, htree⟩ := ihright hrule hright
      refine ⟨chained hchain left d', ?_, ?_⟩
      · simp [tokens, htokens]
      · have hindex : (literals (left.tokens ++ .sign k.sign :: between)).length =
            left.tree.leaves.length + (literals between).length := by
          simp [left.length_leaves_tree]
        rw [tree, tree, hindex, Expr.replaceLeaf_node_right, htree]

end

/-! ### Literals in texts -/

/-- The character can be part of a literal. -/
def isLiteralChar (c : Char) : Bool :=
  c.isDigit || c == '.'

/-- The number of literals in a text: of its longest runs of digits and points. -/
def literalCount (text : List Char) : Nat :=
  (text.splitOnP fun c => !isLiteralChar c).countP fun run => !run.isEmpty

theorem isLiteralChar_eq_false_iff {c : Char} : isLiteralChar c = false ↔ c.isDigit = false ∧ c ≠ '.' := by
  simp [isLiteralChar]

theorem endsLiteral_iff {rest : List Char} : EndsLiteral rest ↔ ∀ c ∈ rest.head?, isLiteralChar c = false := by
  simp only [EndsLiteral, isLiteralChar_eq_false_iff]

theorem Literal.isLiteralChar (l : Literal) : ∀ c ∈ l.text, isLiteralChar c = true := by
  intro c hc
  simpa [Reckoner.isLiteralChar] using l.isDigit_or_eq_point hc

theorem Sign.isLiteralChar_char (s : Sign) : isLiteralChar s.char = false :=
  isLiteralChar_eq_false_iff.mpr ⟨s.isDigit_char, s.char_ne_point⟩

theorem literalCount_cons {c : Char} (h : isLiteralChar c = false) (rest : List Char) :
    literalCount (c :: rest) = literalCount rest := by
  simp [literalCount, List.splitOnP_cons_eq_if_modifyHead, h]

theorem literalCount_spaces_append (count : Nat) (rest : List Char) :
    literalCount (List.replicate count ' ' ++ rest) = literalCount rest := by
  induction count with
  | zero => rfl
  | succ count ih => rw [List.replicate_succ, List.cons_append, literalCount_cons (by decide), ih]

theorem literalCount_text_append (l : Literal) {rest : List Char} (h : EndsLiteral rest) :
    literalCount (l.text ++ rest) = literalCount rest + 1 := by
  have hrun : ∀ c ∈ l.text, (!isLiteralChar c) = false := fun c hc => by simp [l.isLiteralChar c hc]
  cases rest with
  | nil => simp [literalCount, List.splitOnP_eq_singleton hrun, l.text_ne_nil]
  | cons c rest =>
    have hc : isLiteralChar c = false := endsLiteral_iff.mp h c rfl
    rw [literalCount_cons hc]
    simp [literalCount, List.splitOnP_append_cons_of_forall_mem hrun c (by simp [hc]),
      l.text_ne_nil]

theorem Literal.isDigit_of_text_append {l : Literal} {rest more : List Char} {c : Char}
    (h : l.text ++ rest = c :: more) : c.isDigit = true := by
  obtain ⟨first, others, htext, hfirst⟩ := l.exists_text_eq_cons
  rw [htext] at h
  rwa [← (List.cons.inj h).1]

/-- No literal begins among spaces. -/
theorem exists_of_spaces_append {count : Nat} {rest before after : List Char} {l : Literal}
    (h : List.replicate count ' ' ++ rest = before ++ (l.text ++ after)) :
    ∃ more, before = List.replicate count ' ' ++ more ∧ rest = more ++ (l.text ++ after) := by
  obtain ⟨more, hbefore, hrest⟩ | ⟨spaces, hspaces, hrest⟩ := List.append_eq_append_iff.mp h
  · exact ⟨more, hbefore, hrest⟩
  · cases spaces with
    | nil => exact ⟨[], by simpa using hspaces.symm, hrest.symm⟩
    | cons space spaces =>
      have hdigit := Literal.isDigit_of_text_append hrest
      have hmem : space ∈ List.replicate count ' ' := by simp [hspaces]
      rw [List.eq_of_mem_replicate hmem] at hdigit
      exact absurd hdigit (by decide)

/-- A text has only one literal at its beginning. -/
theorem Literal.eq_of_text_append_eq {l l' : Literal} {rest rest' : List Char} (hrest : EndsLiteral rest)
    (hrest' : EndsLiteral rest') (h : l.text ++ rest = l'.text ++ rest') : l = l' ∧ rest = rest' := by
  have hread := readLiteral?_append l hrest
  rw [h, readLiteral?_append l' hrest'] at hread
  exact Prod.mk.inj (Option.some.inj hread.symm)

/-- A literal in a text that begins with a token is this token, or it stands after it. -/
theorem Token.eq_or_exists_of_literal {token : Token} {text before after : List Char} {l : Literal}
    (h : token.text ++ text = before ++ (l.text ++ after))
    (hbefore : ∀ c ∈ before.getLast?, isLiteralChar c = false) (hafter : EndsLiteral after)
    (hnext : ∀ l', token = .literal l' → EndsLiteral text) :
    (before = [] ∧ token = .literal l ∧ text = after) ∨
      ∃ others, before = token.text ++ others ∧ text = others ++ (l.text ++ after) := by
  cases token with
  | sign s =>
    obtain ⟨-, hsign⟩ | ⟨others, hothers, htext⟩ := List.cons_eq_append_iff.mp h
    · have hdigit := Literal.isDigit_of_text_append hsign
      rw [s.isDigit_char] at hdigit
      exact absurd hdigit nofun
    · exact .inr ⟨others, hothers, htext⟩
  | literal l' =>
    obtain ⟨others, hothers, htext⟩ | ⟨others, hothers, hrest⟩ := List.append_eq_append_iff.mp h
    · exact .inr ⟨others, hothers, htext⟩
    · cases before using List.reverseRecOn with
      | nil =>
        obtain rfl : l'.text = others := hothers
        obtain ⟨rfl, rfl⟩ := Literal.eq_of_text_append_eq hafter (hnext l' rfl) hrest
        exact .inl ⟨rfl, rfl, rfl⟩
      | append_singleton before c =>
        -- The literal of the token would go on into this one.
        have htext : l'.text = before ++ [c] ++ others := hothers
        have hc : isLiteralChar c = true := l'.isLiteralChar c (by simp [htext])
        have hlast : isLiteralChar c = false := hbefore c (by simp)
        exact absurd (hc.symm.trans hlast) nofun

/-- The two tokens are not both literals. -/
abbrev Token.Apart (token next : Token) : Prop :=
  token.literal? = none ∨ next.literal? = none

namespace LaidOut

variable {tokens : List Token} {text : List Char}

theorem endsLiteral (h : LaidOut tokens text) (hnext : ∀ token ∈ tokens.head?, token.literal? = none) :
    EndsLiteral text := by
  rw [endsLiteral_iff]
  intro c hc
  obtain _ | ⟨count, token, _⟩ := h
  · rw [List.eq_of_mem_replicate (List.mem_of_mem_head? hc)]
    rfl
  · cases count with
    | succ count =>
      cases hc
      rfl
    | zero =>
      cases token with
      | sign s =>
        cases hc
        exact s.isLiteralChar_char
      | literal l => exact absurd (hnext _ rfl) nofun

theorem endsLiteral_of_apart {l : Literal} (h : LaidOut tokens text)
    (hapart : (.literal l :: tokens).IsChain Token.Apart) : EndsLiteral text :=
  h.endsLiteral fun token htoken => ((List.isChain_cons.mp hapart).1 token htoken).resolve_left nofun

theorem literalCount_eq (h : LaidOut tokens text) (hapart : tokens.IsChain Token.Apart) :
    literalCount text = (literals tokens).length := by
  induction h with
  | nil count =>
    rw [← List.append_nil (List.replicate count ' '), literalCount_spaces_append]
    rfl
  | cons count token h ih =>
    have hrest := ih hapart.tail
    rw [literalCount_spaces_append]
    cases token with
    | sign s =>
      rw [Token.text, List.singleton_append, literalCount_cons s.isLiteralChar_char, hrest, literals_sign_cons]
    | literal l =>
      rw [Token.text, literalCount_text_append l (h.endsLiteral_of_apart hapart), hrest, literals_literal_cons,
        List.length_cons]

/-- A literal in the text that no digit and no point touches is one of the tokens, and the tokens
before it and after it are laid out before it and after it. -/
theorem exists_of_literal {before after : List Char} {l : Literal} (h : LaidOut tokens text)
    (hapart : tokens.IsChain Token.Apart) (htext : text = before ++ (l.text ++ after))
    (hbefore : ∀ c ∈ before.getLast?, isLiteralChar c = false) (hafter : EndsLiteral after) :
    ∃ first second, tokens = first ++ .literal l :: second ∧ LaidOut first before ∧ LaidOut second after := by
  induction h generalizing before with
  | nil count =>
    rw [← List.append_nil (List.replicate count ' ')] at htext
    obtain ⟨more, -, hnil⟩ := exists_of_spaces_append htext
    simp [l.text_ne_nil] at hnil
  | @cons count token tokens text h ih =>
    obtain ⟨more, rfl, hmore⟩ := exists_of_spaces_append htext
    have hmoreLast : ∀ c ∈ more.getLast?, isLiteralChar c = false :=
      fun c hc => hbefore c (List.mem_getLast?_append_of_mem_getLast? hc)
    have hnext : ∀ l', token = .literal l' → EndsLiteral text := by
      rintro l' rfl
      exact h.endsLiteral_of_apart hapart
    obtain ⟨rfl, rfl, rfl⟩ | ⟨others, rfl, hothers⟩ := Token.eq_or_exists_of_literal hmore hmoreLast hafter hnext
    · refine ⟨[], tokens, rfl, ?_, h⟩
      rw [List.append_nil]
      exact .nil count
    · have hlast : ∀ c ∈ others.getLast?, isLiteralChar c = false :=
        fun c hc => hmoreLast c (List.mem_getLast?_append_of_mem_getLast? hc)
      obtain ⟨first, second, rfl, hfirst, hsecond⟩ := ih hapart.tail hothers hlast
      exact ⟨token :: first, second, rfl, .cons count token hfirst, hsecond⟩

end LaidOut

/-- A literal in a text that is evaluated, taken out with all its digits and its point, can be
replaced by a text in parentheses that is evaluated too. The tree of the new text is the tree of the
old one with the tree of the text put in as the leaf of this literal. -/
theorem report_of_replaced_literal (before after inner : String) (l : Literal)
    (hbefore : ∀ c ∈ before.toList.getLast?, isLiteralChar c = false)
    (hafter : ∀ c ∈ after.toList.head?, isLiteralChar c = false)
    (hwhole : Evaluated (before ++ String.ofList l.text ++ after)) (hinner : Evaluated inner) :
    ∃ whole part replaced tree subtree,
      Report.of (before ++ String.ofList l.text ++ after) = .returned whole ∧ whole.tree = some tree ∧
      Report.of inner = .returned part ∧ part.tree = some subtree ∧
      tree.leaves[literalCount before.toList]? = some l.value ∧
      Report.of (before ++ "(" ++ inner ++ ")" ++ after) = .returned replaced ∧ replaced.outcome = .evaluated ∧
      replaced.tree = some (tree.replaceLeaf (literalCount before.toList) subtree) := by
  obtain ⟨d, hd⟩ := evaluated_iff.mp hwhole
  obtain ⟨dinner, hdinner⟩ := evaluated_iff.mp hinner
  obtain ⟨whole, hreport, hreads⟩ := Report.exists_reads (before ++ String.ofList l.text ++ after)
  obtain ⟨part, hpart, hreadsPart⟩ := Report.exists_reads inner
  obtain ⟨replaced, hreplaced, hreadsReplaced⟩ := Report.exists_reads (before ++ "(" ++ inner ++ ")" ++ after)
  have htext : (before ++ String.ofList l.text ++ after).toList = before.toList ++ (l.text ++ after.toList) := by
    simp
  have hapart : d.tokens.IsChain Token.Apart := d.isChain_tokens
  obtain ⟨first, second, htokens, hfirst, hsecond⟩ :=
    hd.exists_of_literal hapart htext hbefore (endsLiteral_iff.mpr hafter)
  have hcount : literalCount before.toList = (literals first).length := by
    apply hfirst.literalCount_eq
    rw [htokens] at hapart
    exact hapart.left_of_append
  obtain ⟨d', htokens', htree'⟩ := d.exists_replaced dinner (by decide) htokens
  have hlaid : LaidOut d'.tokens (before ++ "(" ++ inner ++ ")" ++ after).toList := by
    have henclosed := LaidOut.cons 0 (.sign .opening) (hdinner.append (.singleton (.sign .closing) 0))
    have hall := hfirst.append (henclosed.append hsecond)
    rw [htokens']
    simpa [Derivation.tokens, Token.text, Sign.char] using hall
  obtain ⟨houtcome, htree⟩ := hreadsReplaced.of_laidOut hlaid
  refine ⟨whole, part, replaced, d.tree, dinner.tree, hreport, (hreads.of_laidOut hd).2, hpart,
    (hreadsPart.of_laidOut hdinner).2, ?_, hreplaced, houtcome, ?_⟩
  · rw [hcount, d.leaves_tree, htokens]
    simp
  · rw [htree, htree', hcount]

/-- The literal of a product, with another literal before it. -/
theorem sum_in_place_of_second_literal : ∃ whole part replaced tree subtree,
    Report.of "1 + 2*3" = .returned whole ∧ whole.tree = some tree ∧
    Report.of "4 + 5" = .returned part ∧ part.tree = some subtree ∧
    tree.leaves[1]? = some (.ofDigits ['2'] []) ∧
    Report.of "1 + (4 + 5)*3" = .returned replaced ∧ replaced.outcome = .evaluated ∧
    replaced.tree = some (tree.replaceLeaf 1 subtree) := by
  have hwhole : "1 + " ++ String.ofList (literalAhead ['2'] (by decide)).text ++ "*3" = "1 + 2*3" := by decide
  have hreplaced : "1 + " ++ "(" ++ "4 + 5" ++ ")" ++ "*3" = "1 + (4 + 5)*3" := by decide
  have hcount : literalCount "1 + ".toList = 1 := by decide
  have hevaluated : Evaluated "1 + 2*3" := ⟨_, rfl, rfl⟩
  have hinner : Evaluated "4 + 5" := ⟨_, rfl, rfl⟩
  have hbefore : ∀ c ∈ "1 + ".toList.getLast?, isLiteralChar c = false := by
    rintro c ⟨⟩
    rfl
  have hafter : ∀ c ∈ "*3".toList.head?, isLiteralChar c = false := by
    rintro c ⟨⟩
    rfl
  have h := report_of_replaced_literal "1 + " "*3" "4 + 5" (literalAhead ['2'] (by decide)) hbefore hafter
    (hwhole ▸ hevaluated) hinner
  rw [hwhole, hreplaced, hcount] at h
  exact h

end Reckoner
