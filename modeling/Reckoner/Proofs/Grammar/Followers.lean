import Mathlib
import Reckoner.Proofs.Grammar.Derivation
import Reckoner.Proofs.Parser.Lexical

/-!
# What can come after a rule

A sign is read behind any number of spaces, and never where a literal begins. Inside a larger match
a rule is followed by one of a few signs: the closing parenthesis, or the sign of a chain that it is
an operand of. None of these continues the rule, and none makes a literal before it longer.
-/

namespace Reckoner

/-! ### Signs among spaces -/

theorem Sign.char_injective : Function.Injective Sign.char := by
  intro s t h
  cases s <;> cases t <;> first | rfl | exact absurd h (by decide)

theorem Sign.char_ne_space (s : Sign) : s.char ≠ ' ' := by
  cases s <;> decide

theorem Sign.isDigit_char (s : Sign) : s.char.isDigit = false := by
  cases s <;> rfl

theorem Sign.char_ne_point (s : Sign) : s.char ≠ '.' := by
  cases s <;> decide

theorem afterSign?_congr {sign : Char} {text other : List Char} (h : afterSpaces text = afterSpaces other) :
    afterSign? sign text = afterSign? sign other := by
  rw [afterSign?, afterSign?, h]

theorem afterSpaces_spaces_sign (s : Sign) (count : Nat) (text : List Char) :
    afterSpaces (List.replicate count ' ' ++ s.char :: text) = s.char :: text := by
  rw [afterSpaces_replicate_append, afterSpaces_cons_of_ne s.char_ne_space]

theorem afterSign?_spaces_sign (s : Sign) (count : Nat) (text : List Char) :
    afterSign? s.char (List.replicate count ' ' ++ s.char :: text) = some (afterSpaces text) :=
  afterSign?_eq_some_iff.mpr ⟨text, afterSpaces_spaces_sign s count text, rfl⟩

theorem afterSpaces_text_append (l : Literal) (rest : List Char) : afterSpaces (l.text ++ rest) = l.text ++ rest := by
  obtain ⟨c, more, htext, hc⟩ := l.exists_text_eq_cons
  rw [htext, List.cons_append, afterSpaces_cons_of_ne]
  rintro rfl
  exact absurd hc (by decide)

theorem afterSign?_text_append (s : Sign) (l : Literal) (rest : List Char) :
    afterSign? s.char (l.text ++ rest) = none := by
  rw [Option.eq_none_iff_forall_ne_some]
  intro after h
  obtain ⟨_, hafter, -⟩ := afterSign?_eq_some_iff.mp h
  obtain ⟨c, more, htext, hc⟩ := l.exists_text_eq_cons
  rw [afterSpaces_text_append, htext, List.cons_append] at hafter
  rw [(List.cons.inj hafter).1, s.isDigit_char] at hc
  exact Bool.false_ne_true hc

/-! ### What comes next -/

/-- The signs that can come after a match of the rule inside another one, none of which continues
the rule. -/
def Rule.followers : Rule → List Sign
  | sum => [.closing]
  | product => [.plus, .closing]
  | factor => [.times, .plus, .closing]
  | number => [.times, .plus, .closing]

/-- After the spaces the text ends or has one of the followers of the rule. -/
def Followed (rule : Rule) (rest : List Char) : Prop :=
  ∀ c ∈ (afterSpaces rest).head?, ∃ s ∈ rule.followers, c = s.char

theorem followers_operand {rule : Rule} {k : Chain} (h : rule.chain? = some k) :
    k.operand.followers = k.sign :: rule.followers := by
  cases rule <;> cases h <;> rfl

theorem sign_mem_followers {rule : Rule} {k : Chain} (h : rule.chain? = some k) : k.sign ∈ k.operand.followers := by
  rw [followers_operand h]
  exact List.mem_cons_self

theorem sign_notMem_followers {rule : Rule} {k : Chain} (h : rule.chain? = some k) : k.sign ∉ rule.followers := by
  cases rule <;> cases h <;> decide

theorem followed_nil (rule : Rule) : Followed rule [] := by
  simp [Followed]

theorem followed_spaces_sign {rule : Rule} {s : Sign} (h : s ∈ rule.followers) (count : Nat) (rest : List Char) :
    Followed rule (List.replicate count ' ' ++ s.char :: rest) := by
  intro c hc
  rw [afterSpaces_spaces_sign, List.head?_cons, Option.mem_some_iff] at hc
  exact ⟨s, h, hc.symm⟩

namespace Followed

variable {rule : Rule} {rest : List Char}

theorem mono {other : Rule} (h : Followed rule rest) (hsub : rule.followers ⊆ other.followers) : Followed other rest := by
  intro c hc
  obtain ⟨s, hs, hcs⟩ := h c hc
  exact ⟨s, hsub hs, hcs⟩

theorem operand {k : Chain} (h : Followed rule rest) (hchain : rule.chain? = some k) : Followed k.operand rest :=
  h.mono (by rw [followers_operand hchain]; exact List.subset_cons_self _ _)

theorem afterSign?_eq_none {s : Sign} (h : Followed rule rest) (hs : s ∉ rule.followers) :
    afterSign? s.char rest = none := by
  rw [Option.eq_none_iff_forall_ne_some]
  intro after hafter
  obtain ⟨more, hmore, -⟩ := afterSign?_eq_some_iff.mp hafter
  obtain ⟨t, ht, hchar⟩ := h s.char (by rw [hmore]; rfl)
  exact hs (Sign.char_injective hchar ▸ ht)

theorem endsLiteral (h : Followed rule rest) : EndsLiteral rest := by
  intro c hc
  by_cases hspace : c = ' '
  · subst hspace
    decide
  · cases rest with
    | nil => simp at hc
    | cons first more =>
      cases hc
      obtain ⟨s, -, rfl⟩ := h c (by rw [afterSpaces_cons_of_ne hspace]; rfl)
      exact ⟨s.isDigit_char, s.char_ne_point⟩

end Followed

end Reckoner
