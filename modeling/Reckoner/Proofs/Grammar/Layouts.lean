import Mathlib
import Reckoner.Proofs.Grammar.Exactness

/-!
# Layouts of tokens

A layout says how many spaces stand before each token of a sequence and after the last one, and two
literals in a row are kept apart by one space at least. Where reading goes on is named here by the
index of a token and not by an offset: a sign is read exactly where the next token is this sign, a
number where it is a literal, and both leave what is laid out from the token after it on. So the
course of a rule on one layout is its course on every other one, and the number of spaces shows in
nothing but the offsets.
-/

namespace Reckoner

open Grammar

/-- The tokens with this many spaces before each of them, and after the last. -/
def layOut (spaces : Nat → Nat) : List Token → List Char
  | [] => List.replicate (spaces 0) ' '
  | token :: tokens =>
    List.replicate (spaces 0) ' ' ++ (token.text ++ layOut (fun index => spaces (index + 1)) tokens)

structure Layout (tokens : List Token) where
  spaces : Nat → Nat
  /-- Without a space between them two literals would be read as one. -/
  separated : ∀ index first second, tokens[index]? = some (.literal first) →
    tokens[index + 1]? = some (.literal second) → 0 < spaces (index + 1)

namespace Layout

variable {tokens : List Token}

def text (layout : Layout tokens) : List Char :=
  layOut layout.spaces tokens

/-- The offset where a token starts: the tokens before it are laid out there with the spaces around
them. -/
def start (layout : Layout tokens) (index : Nat) : Nat :=
  (layOut layout.spaces (tokens.take index)).length

/-- What is laid out from a token on, with the spaces before it. -/
def onwards (layout : Layout tokens) (index : Nat) : List Char :=
  layOut (fun more => layout.spaces (index + more)) (tokens.drop index)

/-- What is left of the text when reading has come to a token. -/
def rest (layout : Layout tokens) (index : Nat) : List Char :=
  afterSpaces (layout.onwards index)

@[simp] theorem afterSpaces_rest (layout : Layout tokens) (index : Nat) :
    afterSpaces (layout.rest index) = layout.rest index :=
  afterSpaces_afterSpaces _

@[simp] theorem onwards_zero (layout : Layout tokens) : layout.onwards 0 = layout.text := by
  simp [onwards, text]

theorem rest_zero (layout : Layout tokens) : layout.rest 0 = afterSpaces layout.text := by
  rw [rest, onwards_zero]

theorem onwards_of_getElem? (layout : Layout tokens) {index : Nat} {token : Token} (h : tokens[index]? = some token) :
    layout.onwards index =
      List.replicate (layout.spaces index) ' ' ++ (token.text ++ layout.onwards (index + 1)) := by
  obtain ⟨hlt, rfl⟩ := List.getElem?_eq_some_iff.mp h
  rw [onwards, List.drop_eq_getElem_cons hlt, layOut, onwards]
  simp only [Nat.add_zero, Nat.add_assoc, Nat.add_comm 1]

theorem onwards_of_le (layout : Layout tokens) {index : Nat} (h : tokens.length ≤ index) :
    layout.onwards index = List.replicate (layout.spaces index) ' ' := by
  rw [onwards, List.drop_eq_nil_of_le h, layOut, Nat.add_zero]

end Layout

theorem layOut_eq_append (spaces : Nat → Nat) (tokens : List Token) {index : Nat} (h : index < tokens.length) :
    layOut spaces tokens = layOut spaces (tokens.take index) ++
      (tokens[index].text ++ layOut (fun more => spaces (index + 1 + more)) (tokens.drop (index + 1))) := by
  induction tokens generalizing spaces index with
  | nil => exact absurd h (Nat.not_lt_zero index)
  | cons token tokens ih =>
    cases index with
    | zero => simp [layOut, Nat.add_comm 1]
    | succ index =>
      have hrest := ih (fun more => spaces (more + 1)) (Nat.lt_of_succ_lt_succ h)
      simp only [layOut, List.take_succ_cons, List.drop_succ_cons, List.getElem_cons_succ, List.append_assoc, hrest]
      simp only [Nat.add_right_comm _ 1]

/-! ### Reading what is laid out -/

/-- The literal that the token is. -/
def Token.literal? : Token → Option Literal
  | sign _ => none
  | literal l => some l

theorem Token.eq_literal_of_literal? {token : Token} {l : Literal} (h : token.literal? = some l) :
    token = .literal l := by
  cases token with
  | sign s => exact absurd h nofun
  | literal l' => rw [Option.some.inj h]

namespace Layout

variable {tokens : List Token} (layout : Layout tokens) {index : Nat} {text : List Char}

theorem rest_of_getElem? {token : Token} (h : tokens[index]? = some token) :
    layout.rest index = token.text ++ layout.onwards (index + 1) := by
  rw [rest, layout.onwards_of_getElem? h, afterSpaces_replicate_append]
  cases token with
  | sign s => exact afterSpaces_cons_of_ne s.char_ne_space _
  | literal l => exact afterSpaces_text_append l _

theorem rest_of_le (h : tokens.length ≤ index) : layout.rest index = [] := by
  rw [rest, layout.onwards_of_le h, ← List.append_nil (List.replicate _ _), afterSpaces_replicate_append,
    afterSpaces_nil]

theorem endsLiteral_onwards {l : Literal} (h : tokens[index]? = some (.literal l)) :
    EndsLiteral (layout.onwards (index + 1)) := by
  intro c hc
  cases hnext : tokens[index + 1]? with
  | none =>
    rw [layout.onwards_of_le (List.getElem?_eq_none_iff.mp hnext)] at hc
    rw [List.eq_of_mem_replicate (List.mem_of_mem_head? hc)]
    decide
  | some token =>
    rw [layout.onwards_of_getElem? hnext] at hc
    cases hspaces : layout.spaces (index + 1) with
    | succ count =>
      rw [hspaces, List.replicate_succ, List.cons_append, List.head?_cons, Option.mem_some_iff] at hc
      rw [← hc]
      decide
    | zero =>
      rw [hspaces, List.replicate_zero, List.nil_append] at hc
      cases token with
      | sign s =>
        obtain rfl : s.char = c := Option.mem_some_iff.mp hc
        exact ⟨s.isDigit_char, s.char_ne_point⟩
      | literal next =>
        have hpositive := layout.separated index l next h hnext
        omega

/-- A sign is read exactly where it is the next token. -/
theorem afterSign?_of_rest (s : Sign) (htext : afterSpaces text = layout.rest index) :
    afterSign? s.char text =
      if tokens[index]? = some (.sign s) then some (layout.rest (index + 1)) else none := by
  cases hnext : tokens[index]? with
  | none =>
    rw [if_neg nofun, afterSign?, htext, layout.rest_of_le (List.getElem?_eq_none_iff.mp hnext)]
    rfl
  | some token =>
    rw [afterSign?, htext, layout.rest_of_getElem? hnext]
    cases token with
    | sign t =>
      by_cases hsame : t = s
      · subst hsame
        simp [Token.text, Parser.oneChar, rest]
      · have hchar : t.char ≠ s.char := fun heq => hsame (Sign.char_injective heq)
        simp [Token.text, Parser.oneChar, hsame, hchar]
    | literal l =>
      have hnone := afterSign?_text_append s l (layout.onwards (index + 1))
      rw [afterSign?, afterSpaces_text_append] at hnone
      rw [if_neg (by simp)]
      exact hnone

theorem afterSign?_of_getElem? {s : Sign} (htext : afterSpaces text = layout.rest index)
    (hnext : tokens[index]? = some (.sign s)) : afterSign? s.char text = some (layout.rest (index + 1)) := by
  rw [layout.afterSign?_of_rest s htext, if_pos hnext]

theorem getElem?_of_afterSign? {s : Sign} {inner : List Char} (htext : afterSpaces text = layout.rest index)
    (h : afterSign? s.char text = some inner) : tokens[index]? = some (.sign s) ∧ inner = layout.rest (index + 1) := by
  rw [layout.afterSign?_of_rest s htext] at h
  obtain ⟨hnext, hinner⟩ := Option.ite_none_right_eq_some.mp h
  exact ⟨hnext, (Option.some.inj hinner).symm⟩

theorem afterSign?_eq_none_iff {s : Sign} (htext : afterSpaces text = layout.rest index) :
    afterSign? s.char text = none ↔ tokens[index]? ≠ some (.sign s) := by
  rw [layout.afterSign?_of_rest s htext]
  exact ite_eq_right_iff.trans (forall_congr' fun _ => iff_false_intro nofun)

/-- A number is read exactly where the next token is a literal. -/
theorem readNumber?_of_rest (htext : afterSpaces text = layout.rest index) :
    readNumber? text =
      (tokens[index]?.bind Token.literal?).map fun l => (l, layout.rest (index + 1)) := by
  rw [readNumber?, htext]
  cases hnext : tokens[index]? with
  | none =>
    rw [layout.rest_of_le (List.getElem?_eq_none_iff.mp hnext)]
    rfl
  | some token =>
    rw [layout.rest_of_getElem? hnext]
    cases token with
    | sign s =>
      have hnone : readLiteral? ((Token.sign s).text ++ layout.onwards (index + 1)) = none := by
        rw [readLiteral?_eq_none_iff]
        simp [Token.text, s.isDigit_char]
      rw [hnone]
      rfl
    | literal l =>
      rw [Token.text, readLiteral?_append l (layout.endsLiteral_onwards hnext)]
      rfl

theorem getElem?_eq_of_rest_eq {others : List Token} (other : Layout others)
    (h : layout.rest index = other.rest index) :
    tokens[index]? = others[index]? ∧
      layout.rest (index + 1) = other.rest (index + 1) := by
  cases hnext : tokens[index]? with
  | none =>
    have hend := List.getElem?_eq_none_iff.mp hnext
    rw [layout.rest_of_le hend] at h
    cases hother : others[index]? with
    | none =>
      have hend' := List.getElem?_eq_none_iff.mp hother
      refine ⟨rfl, ?_⟩
      rw [layout.rest_of_le (hend.trans index.le_succ),
        other.rest_of_le (hend'.trans index.le_succ)]
    | some token =>
      rw [other.rest_of_getElem? hother] at h
      exact absurd (List.append_eq_nil_iff.mp h.symm).1 token.text_ne_nil
  | some token =>
    cases token with
    | sign s =>
      have hread := layout.afterSign?_of_getElem? (layout.afterSpaces_rest index) hnext
      rw [h] at hread
      obtain ⟨hother, hrest⟩ := other.getElem?_of_afterSign? (other.afterSpaces_rest index) hread
      exact ⟨hother.symm, hrest⟩
    | literal l =>
      have hread := layout.readNumber?_of_rest (layout.afterSpaces_rest index)
      rw [hnext, h, other.readNumber?_of_rest (other.afterSpaces_rest index)] at hread
      obtain ⟨l', hother, hfound⟩ := Option.map_eq_some_iff.mp hread
      obtain ⟨token, htoken, hliteral⟩ := Option.bind_eq_some_iff.mp hother
      obtain ⟨rfl, hrest⟩ := Prod.mk.inj hfound
      rw [htoken, Token.eq_literal_of_literal? hliteral]
      exact ⟨rfl, hrest.symm⟩

/-- The text from the start of a token on is what is left there. -/
theorem text_eq_append (h : index < tokens.length) :
    layout.text = layOut layout.spaces (tokens.take index) ++ layout.rest index := by
  rw [layout.rest_of_getElem? (List.getElem?_eq_getElem h)]
  exact layOut_eq_append layout.spaces tokens h

theorem start_eq_of_rest_ne_nil (h : layout.rest index ≠ []) :
    index < tokens.length ∧ layout.text.length - (layout.rest index).length = layout.start index := by
  have hlt : index < tokens.length := by
    by_contra hend
    exact h (layout.rest_of_le (Nat.le_of_not_lt hend))
  refine ⟨hlt, ?_⟩
  rw [layout.text_eq_append hlt, List.length_append, Nat.add_sub_cancel]
  rfl

theorem rest_eq_nil_iff : layout.rest index = [] ↔ tokens.length ≤ index := by
  refine ⟨fun h => ?_, layout.rest_of_le⟩
  by_contra hlt
  rw [layout.rest_of_getElem? (List.getElem?_eq_getElem (Nat.lt_of_not_le hlt))] at h
  exact Token.text_ne_nil _ (List.append_eq_nil_iff.mp h).1

/-- Only one sequence of tokens can be laid out as the same text. -/
theorem tokens_unique {others : List Token} (other : Layout others) (h : layout.text = other.text) :
    tokens = others := by
  have hsame (index : Nat) : layout.rest index = other.rest index := by
    induction index with
    | zero => rw [rest_zero, rest_zero, h]
    | succ index ih => exact (layout.getElem?_eq_of_rest_eq other ih).2
  exact List.ext_getElem? fun index => (layout.getElem?_eq_of_rest_eq other (hsame index)).1

/-- What a course has found if it stops before the token with this index. -/
def found {rule : Rule} (stopped : Derivation rule × Nat) : Derivation rule × List Char :=
  (stopped.1, layout.rest stopped.2)

theorem exists_of_found {layout : Layout tokens} {rule : Rule} {d : Derivation rule} {rest : List Char}
    {stopped : Option (Derivation rule × Nat)} (h : some (d, rest) = stopped.map layout.found) :
    ∃ stop, stopped = some (d, stop) ∧ rest = layout.rest stop := by
  obtain ⟨⟨d', stop⟩, hstopped, hfound⟩ := Option.map_eq_some_iff.mp h.symm
  obtain ⟨rfl, rfl⟩ := Prod.mk.inj hfound
  exact ⟨stop, hstopped, rfl⟩

end Layout

/-! ### Layouts of derivations -/

theorem LaidOut.exists_spaces {tokens : List Token} {text : List Char} (h : LaidOut tokens text) :
    ∃ spaces, layOut spaces tokens = text := by
  induction h with
  | nil count => exact ⟨fun _ => count, rfl⟩
  | cons count token _ ih =>
    obtain ⟨spaces, rfl⟩ := ih
    refine ⟨fun index => if index = 0 then count else spaces (index - 1), ?_⟩
    simp [layOut]

/-- No derivation has two literals in a row. -/
theorem Derivation.isChain_tokens {rule : Rule} (d : Derivation rule) :
    d.tokens.IsChain fun token next => token.literal? = none ∨ next.literal? = none := by
  induction d with
  | number => exact .singleton _
  | bare _ ih | alone _ _ ih => exact ih
  | enclosed inner ih =>
    rw [tokens, List.isChain_cons, List.isChain_append]
    refine ⟨fun _ _ => .inl rfl, ih, .singleton _, ?_⟩
    rintro _ - next hnext
    obtain rfl := Option.some.inj hnext
    exact .inr rfl
  | chained hchain left right ihleft ihright =>
    rw [tokens, List.isChain_append, List.isChain_cons]
    refine ⟨ihleft, ⟨fun _ _ => .inl rfl, ihright⟩, ?_⟩
    rintro _ - next hnext
    obtain rfl := Option.some.inj hnext
    exact .inr rfl

theorem Derivation.exists_layout {rule : Rule} (d : Derivation rule) {text : List Char} (h : LaidOut d.tokens text) :
    ∃ layout : Layout d.tokens, layout.text = text := by
  obtain ⟨spaces, htext⟩ := h.exists_spaces
  refine ⟨⟨spaces, ?_⟩, htext⟩
  intro index first second hfirst hsecond
  obtain ⟨hlt, hnext⟩ := List.getElem?_eq_some_iff.mp hsecond
  obtain ⟨_, hthis⟩ := List.getElem?_eq_some_iff.mp hfirst
  have hapart := List.isChain_iff_getElem.mp d.isChain_tokens index hlt
  rw [hthis, hnext] at hapart
  exact absurd hapart (by simp [Token.literal?])

/-! ### Courses on a layout

Where a rule stops is decided by the tokens alone, so on every layout in the same way.
-/

namespace Layout

variable {tokens : List Token} {rule : Rule}

/-- Wherever the token with this index comes next, the rule finds this derivation and stops before
that token, or it fails. -/
def StopsAs (layout : Layout tokens) (index : Nat) (stopped : Option (Derivation rule × Nat)) : Prop :=
  ∀ text, afterSpaces text = layout.rest index → ∃ visits, Course rule text visits (stopped.map layout.found)

namespace StopsAs

variable {layout : Layout tokens} {index stop last : Nat}

theorem number (layout : Layout tokens) (index : Nat) :
    layout.StopsAs index ((tokens[index]?.bind Token.literal?).map fun l => (.number l, index + 1)) := by
  intro text htext
  refine ⟨_, .number ?_⟩
  rw [layout.readNumber?_of_rest htext, Option.map_map, Option.map_map]
  rfl

theorem bare {stopped : Option (Derivation .number × Nat)} (h : layout.StopsAs index stopped)
    (hnext : tokens[index]? ≠ some (.sign .opening)) :
    layout.StopsAs index (stopped.map fun found => (.bare found.1, found.2)) := by
  intro text htext
  obtain ⟨_, hnumber⟩ := h text htext
  have hbare := Course.bare ((layout.afterSign?_eq_none_iff (s := .opening) htext).mpr hnext) hnumber
  rw [Option.map_map] at hbare ⊢
  exact ⟨_, hbare⟩

theorem enclosed {d : Derivation .sum} (h : layout.StopsAs (index + 1) (some (d, stop)))
    (hopening : tokens[index]? = some (.sign .opening)) (hclosing : tokens[stop]? = some (.sign .closing)) :
    layout.StopsAs index (some (.enclosed d, stop + 1)) := by
  intro text htext
  obtain ⟨_, hsum⟩ := h _ (layout.afterSpaces_rest _)
  exact ⟨_, .enclosed (layout.afterSign?_of_getElem? htext hopening) hsum
    (layout.afterSign?_of_getElem? (layout.afterSpaces_rest _) hclosing)⟩

theorem unclosed {stopped : Option (Derivation .sum × Nat)} (h : layout.StopsAs (index + 1) stopped)
    (hopening : tokens[index]? = some (.sign .opening))
    (hnext : ∀ found ∈ stopped, tokens[found.2]? ≠ some (.sign .closing)) :
    layout.StopsAs index (none : Option (Derivation .factor × Nat)) := by
  intro text htext
  obtain ⟨_, hsum⟩ := h _ (layout.afterSpaces_rest _)
  refine ⟨_, .unclosed (layout.afterSign?_of_getElem? htext hopening) hsum ?_⟩
  cases stopped with
  | none => rfl
  | some found => exact (layout.afterSign?_eq_none_iff (s := .closing) (layout.afterSpaces_rest _)).mpr (hnext found rfl)

variable {k : Chain} (hchain : rule.chain? = some k) {left : Derivation k.operand}

include hchain in
theorem missing (h : layout.StopsAs index (none : Option (Derivation k.operand × Nat))) :
    layout.StopsAs index (none : Option (Derivation rule × Nat)) := by
  intro text htext
  obtain ⟨_, hoperand⟩ := h text htext
  exact ⟨_, .missing hchain hoperand⟩

theorem alone (h : layout.StopsAs index (some (left, stop))) (hnext : tokens[stop]? ≠ some (.sign k.sign)) :
    layout.StopsAs index (some (.alone hchain left, stop)) := by
  intro text htext
  obtain ⟨_, hoperand⟩ := h text htext
  exact ⟨_, .alone hchain hoperand ((layout.afterSign?_eq_none_iff (layout.afterSpaces_rest _)).mpr hnext)⟩

theorem retracted (h : layout.StopsAs index (some (left, stop))) (hsign : tokens[stop]? = some (.sign k.sign))
    (hmore : layout.StopsAs (stop + 1) (none : Option (Derivation rule × Nat))) :
    layout.StopsAs index (some (.alone hchain left, stop)) := by
  intro text htext
  obtain ⟨_, hoperand⟩ := h text htext
  obtain ⟨_, hrhs⟩ := hmore _ (layout.afterSpaces_rest _)
  exact ⟨_, .retracted hchain hoperand (layout.afterSign?_of_getElem? (layout.afterSpaces_rest _) hsign) hrhs⟩

theorem chained {right : Derivation rule} (h : layout.StopsAs index (some (left, stop)))
    (hsign : tokens[stop]? = some (.sign k.sign)) (hmore : layout.StopsAs (stop + 1) (some (right, last))) :
    layout.StopsAs index (some (.chained hchain left right, last)) := by
  intro text htext
  obtain ⟨_, hoperand⟩ := h text htext
  obtain ⟨_, hrhs⟩ := hmore _ (layout.afterSpaces_rest _)
  exact ⟨_, .chained hchain hoperand (layout.afterSign?_of_getElem? (layout.afterSpaces_rest _) hsign) hrhs⟩

end StopsAs

end Layout

/-- On another layout of the same tokens a rule finds the same derivation and stops before the same
token, or fails as well. -/
theorem Grammar.Course.exists_stopped {tokens : List Token} (first second : Layout tokens) {index : Nat} {rule : Rule}
    {text : List Char} {visits : List Visit} {result : Option (Derivation rule × List Char)}
    (h : Course rule text visits result) (htext : afterSpaces text = first.rest index) :
    ∃ stopped : Option (Derivation rule × Nat), result = stopped.map first.found ∧ second.StopsAs index stopped := by
  induction h generalizing index with
  | number h =>
    refine ⟨_, ?_, .number second index⟩
    rw [← h, first.readNumber?_of_rest htext, Option.map_map, Option.map_map]
    rfl
  | bare hopen _ ih =>
    obtain ⟨stopped, rfl, hstops⟩ := ih htext
    refine ⟨_, ?_, hstops.bare ((first.afterSign?_eq_none_iff (s := .opening) htext).mp hopen)⟩
    rw [Option.map_map, Option.map_map]
    rfl
  | enclosed hopen _ hclose ih =>
    obtain ⟨hopening, rfl⟩ := first.getElem?_of_afterSign? (s := .opening) htext hopen
    obtain ⟨_, hfound, hstops⟩ := ih (first.afterSpaces_rest _)
    obtain ⟨stop, rfl, rfl⟩ := Layout.exists_of_found hfound
    obtain ⟨hclosing, rfl⟩ := first.getElem?_of_afterSign? (s := .closing) (first.afterSpaces_rest _) hclose
    exact ⟨_, rfl, hstops.enclosed hopening hclosing⟩
  | unclosed hopen _ hclose ih =>
    obtain ⟨hopening, rfl⟩ := first.getElem?_of_afterSign? (s := .opening) htext hopen
    obtain ⟨stopped, rfl, hstops⟩ := ih (first.afterSpaces_rest _)
    refine ⟨none, rfl, hstops.unclosed hopening ?_⟩
    rintro found ⟨⟩
    exact (first.afterSign?_eq_none_iff (s := .closing) (first.afterSpaces_rest _)).mp hclose
  | missing hchain _ ih =>
    obtain ⟨_, hfound, hstops⟩ := ih htext
    obtain rfl := Option.map_eq_none_iff.mp hfound.symm
    exact ⟨none, rfl, hstops.missing hchain⟩
  | alone hchain _ hsign ih =>
    obtain ⟨_, hfound, hstops⟩ := ih htext
    obtain ⟨stop, rfl, rfl⟩ := Layout.exists_of_found hfound
    exact ⟨_, rfl, hstops.alone hchain ((first.afterSign?_eq_none_iff (first.afterSpaces_rest _)).mp hsign)⟩
  | retracted hchain _ hsign _ ih ihmore =>
    obtain ⟨_, hfound, hstops⟩ := ih htext
    obtain ⟨stop, rfl, rfl⟩ := Layout.exists_of_found hfound
    obtain ⟨hnext, rfl⟩ := first.getElem?_of_afterSign? (first.afterSpaces_rest _) hsign
    obtain ⟨_, hnone, hmore⟩ := ihmore (first.afterSpaces_rest _)
    obtain rfl := Option.map_eq_none_iff.mp hnone.symm
    exact ⟨_, rfl, hstops.retracted hchain hnext hmore⟩
  | chained hchain _ hsign _ ih ihmore =>
    obtain ⟨_, hfound, hstops⟩ := ih htext
    obtain ⟨stop, rfl, rfl⟩ := Layout.exists_of_found hfound
    obtain ⟨hnext, rfl⟩ := first.getElem?_of_afterSign? (first.afterSpaces_rest _) hsign
    obtain ⟨_, hlast, hmore⟩ := ihmore (first.afterSpaces_rest _)
    obtain ⟨last, rfl, rfl⟩ := Layout.exists_of_found hlast
    exact ⟨_, rfl, hstops.chained hchain hnext hmore⟩

end Reckoner
