import Mathlib
import Reckoner.Proofs.Grammar.View
import Reckoner.Proofs.Grammar.Visits
import Reckoner.Proofs.Parser.Forward

/-!
# Applications inside one another

The rules refer to one another without end, so the grammar comes to an end only because something
has been read before a rule is applied inside itself. Here each application of a rule is noted with
the applications that it lies in. On the way from one of them to the next either the place stays the
same and the rule is a lower one, or a sign has been read and the place is further on, inside the
text. So between two applications of one rule the place always moves on.

That something has been read is known from the parsers alone: a sign moves on by one character, and
no rule goes back.
-/

namespace Reckoner

namespace Parser

variable {ω α β : Type}

/-- Notes each application within this one as the path that leads to it: this application comes
first, and the one that is noted last. -/
def nested (observe : Cursor → ω) (p : Parser (List ω) α) : Parser (List ω) α :=
  ⟨fun c => ⟨[observe c] :: (p.run c).notes.map (observe c :: ·), (p.run c).exit⟩⟩

/-! ### Parsers that differ only in their notes -/

def SameExits (p q : Parser ω α) : Prop :=
  ∀ c, (p.run c).exit = (q.run c).exit

namespace SameExits

variable {p p' q q' : Parser ω α}

theorem refl (p : Parser ω α) : SameExits p p :=
  fun _ => rfl

theorem bind (h : SameExits p p') {next next' : α → Parser ω β} (hnext : ∀ value, SameExits (next value) (next' value)) :
    SameExits (p.bind next) (p'.bind next') := by
  intro c
  simp only [Parser.bind, Traced.exit_bind]
  rw [h c]
  congr 1
  funext result
  cases result with
  | none => rfl
  | some first => exact hnext first.value first.rest

theorem orElse (h : SameExits p p') (hq : SameExits q q') : SameExits (p.orElse q) (p'.orElse q') := by
  intro c
  simp only [Parser.orElse, Traced.exit_bind]
  rw [h c]
  congr 1
  funext result
  cases result with
  | none => exact hq c
  | some first => rfl

theorem map (f : α → β) (h : SameExits p p') : SameExits (p.map f) (p'.map f) :=
  h.bind fun value => refl (unit (f value))

theorem andThen (h : SameExits p p') {r r' : Parser ω β} (hr : SameExits r r') :
    SameExits (p.andThen r) (p'.andThen r') :=
  h.bind fun _ => hr

theorem skip (h : SameExits p p') (q : Parser ω β) : SameExits (p.skip q) (p'.skip q) :=
  h.bind fun _ => refl _

theorem chain (h : SameExits p p') (sign : String) (hq : SameExits q q') (node : α → α → α) :
    SameExits (Grammar.chain p sign q node) (Grammar.chain p' sign q' node) :=
  h.bind fun left => (((refl (symbol sign)).andThen hq).map (node left)).orElse (refl _)

theorem recursive {body body' : Parser ω α → Parser ω α} (h : ∀ p p', SameExits p p' → SameExits (body p) (body' p')) :
    SameExits (recursive body) (recursive body') := by
  have hunroll (depth : Nat) : SameExits (unroll body depth) (unroll body' depth) := by
    induction depth with
    | zero => exact refl _
    | succ depth ih => exact h _ _ ih
  exact fun c => hunroll (c.room + 1) c

end SameExits

/-! ### Tokens leave no notes -/

theorem Scans.notes_eq_nil {p : Parser ω α} {scan : List Char → Option (α × List Char)} (h : Scans p scan)
    {fault : Fault} (hraised : ∀ {c : Cursor}, ¬c.InReach → p.run c = ⟨[], .raised fault⟩) (c : Cursor) :
    (p.run c).notes = [] := by
  by_cases hc : c.InReach
  · rw [h.run hc, Traced.notes_pure]
  · rw [hraised hc]

theorem notMem_notes_symbol (sign : Char) {c : Cursor} {note : ω} :
    note ∉ ((symbol (String.singleton sign) : Parser ω Char).run c).notes := by
  rw [(scans_symbol sign).notes_eq_nil fun hc => run_token_of_not_inReach _ hc]
  exact List.not_mem_nil

end Parser

namespace Grammar

variable {ω : Type}

/-! ### Grammars that are watched -/

/-- Watching a parser may change what it notes, but not what it gives. -/
def Unobtrusive (watch : Rule → Parser ω Expr → Parser ω Expr) : Prop :=
  ∀ rule p, Parser.SameExits (watch rule p) p

section Watched

variable {watch : Rule → Parser ω Expr → Parser ω Expr}

theorem Unobtrusive.sameExits (h : Unobtrusive watch) (rule : Rule) {p q : Parser ω Expr} (hpq : Parser.SameExits p q) :
    Parser.SameExits (watch rule p) q :=
  fun c => (h rule p c).trans (hpq c)

theorem Unobtrusive.movesOn (h : Unobtrusive watch) (rule : Rule) {p : Parser ω Expr} {least : Nat}
    (hp : p.MovesOn least) : (watch rule p).MovesOn least :=
  fun c found hmatch => hp c found ((h rule p c).symm.trans hmatch)

variable (h : Unobtrusive watch)
include h

theorem sameExits_watchedFactor {sum sum' : Parser ω Expr} (hsum : Parser.SameExits sum sum') :
    Parser.SameExits (watchedFactor watch sum) (watchedFactor (fun _ p => p) sum') := by
  apply h.sameExits
  exact (((Parser.SameExits.refl _).andThen hsum).skip _).orElse (h.sameExits _ (.refl _))

theorem sameExits_watchedSum : Parser.SameExits (watchedSum watch) sum := by
  apply Parser.SameExits.recursive
  intro sum sum' hsum
  apply h.sameExits
  refine Parser.SameExits.chain (Parser.SameExits.recursive ?_) _ hsum _
  intro product product' hproduct
  apply h.sameExits
  exact (sameExits_watchedFactor h hsum).chain _ hproduct _

theorem movesOn_watchedNumber : (watchedNumber watch).MovesOn 1 := by
  apply h.movesOn
  have hdigits : (Parser.digit.many1 : Parser ω (List Char)).MovesOn 1 := (Parser.MovesOn.satisfy Char.isDigit).many1
  have hfloating : (Parser.floating : Parser ω Double).MovesOn 1 :=
    (hdigits.bind fun _ => ((Parser.MovesOn.char ".").andThen hdigits).map _).mono (by omega)
  have hinteger : (Parser.integer : Parser ω Double).MovesOn 1 := hdigits.map _
  exact (hfloating.orElse hinteger).token.map _

theorem movesOn_watchedFactor {sum : Parser ω Expr} (hsum : sum.MovesOn 0) : (watchedFactor watch sum).MovesOn 1 := by
  apply h.movesOn
  have henclosed := ((Parser.MovesOn.symbol "(").andThen hsum).skip (Parser.MovesOn.symbol ")")
  exact (henclosed.mono (by omega)).orElse (movesOn_watchedNumber h)

theorem movesOn_watchedProduct {sum : Parser ω Expr} (hsum : sum.MovesOn 0) : (watchedProduct watch sum).MovesOn 1 := by
  apply Parser.MovesOn.recursive
  intro product hproduct
  apply h.movesOn
  exact (movesOn_watchedFactor h hsum).chain _ hproduct _

theorem movesOn_watchedSum : (watchedSum watch).MovesOn 1 := by
  apply Parser.MovesOn.recursive
  intro sum hsum
  apply h.movesOn
  exact (movesOn_watchedProduct h hsum).chain _ hsum _

end Watched

theorem unobtrusive_nothing : Unobtrusive (ω := ω) fun _ p => p :=
  fun _ p => .refl p

/-- Every rule reads something. -/
theorem movesOn_rule (rule : Rule) : (parser rule : Parser ω Expr).MovesOn 1 := by
  have hsum : (sum : Parser ω Expr).MovesOn 1 := movesOn_watchedSum unobtrusive_nothing
  cases rule with
  | sum => exact hsum
  | product => exact movesOn_watchedProduct unobtrusive_nothing (hsum.mono (Nat.zero_le 1))
  | factor => exact movesOn_watchedFactor unobtrusive_nothing (hsum.mono (Nat.zero_le 1))
  | number => exact movesOn_watchedNumber unobtrusive_nothing

/-! ### Paths of applications -/

/-- A rule and the offset where it is applied. -/
abbrev Application := Rule × Int

/-- Puts the application of a rule around what is noted during it. -/
def nesting (rule : Rule) (p : Parser (List Application) Expr) : Parser (List Application) Expr :=
  p.nested fun c => (rule, c.offset)

/-- The grammar of sums, noting each application of a rule as the path of applications that leads to
it. -/
def nestedSum : Parser (List Application) Expr :=
  watchedSum nesting

theorem unobtrusive_nesting : Unobtrusive nesting :=
  fun _ _ _ => rfl

/-- Directly inside another application, one starts further on and inside the text, or it is of a
lower rule and starts where that one does. -/
def Inside (size : Nat) (outer inner : Application) : Prop :=
  outer.2 < inner.2 ∧ inner.2 ≤ size ∨ outer.2 = inner.2 ∧ inner.1.rank < outer.1.rank

theorem Inside.trans {size : Nat} {outer middle inner : Application} (h : Inside size outer middle)
    (hinner : Inside size middle inner) : Inside size outer inner := by
  unfold Inside at *
  omega

theorem inside_of_onward {c later : Cursor} (h : c.Onward 1 later) (outer inner : Rule) :
    Inside c.text.size (outer, c.offset) (inner, later.offset) := by
  have hleast := h.least_le
  have hmax := h.le_max
  left
  dsimp only
  omega

theorem inside_of_rank_lt {outer inner : Rule} (h : inner.rank < outer.rank) (size : Nat) (offset : Int) :
    Inside size (outer, offset) (inner, offset) :=
  .inr ⟨rfl, h⟩

/-- What is noted when the parser is applied: paths that begin with the rule at the place of the
cursor, and lead from one application directly to the next. -/
structure Nests (rule : Rule) (p : Parser (List Application) Expr) : Prop where
  movesOn : p.MovesOn 0
  path : ∀ c, ∀ path ∈ (p.run c).notes, path.head? = some (rule, c.offset) ∧ path.IsChain (Inside c.text.size)

namespace Nests

variable {rule : Rule}

theorem endless : Nests rule ⟨fun _ => .endless⟩ where
  movesOn := .endless
  path _ _ hpath := absurd hpath List.not_mem_nil

theorem isChain_cons {p : Parser (List Application) Expr} (h : Nests rule p) {c : Cursor} {outer : Application}
    {path : List Application} (hpath : path ∈ (p.run c).notes) (hinside : Inside c.text.size outer (rule, c.offset)) :
    (outer :: path).IsChain (Inside c.text.size) := by
  obtain ⟨hhead, hchain⟩ := h.path c path hpath
  refine List.isChain_cons.mpr ⟨?_, hchain⟩
  rw [hhead]
  rintro _ ⟨⟩
  exact hinside

theorem isChain_cons_of_onward {p : Parser (List Application) Expr} (h : Nests rule p) {c later : Cursor}
    (honward : c.Onward 1 later) (outer : Rule) {path : List Application} (hpath : path ∈ (p.run later).notes) :
    ((outer, c.offset) :: path).IsChain (Inside c.text.size) := by
  have hinside := inside_of_onward honward outer rule
  rw [← honward.text_eq] at hinside ⊢
  exact h.isChain_cons hpath hinside

/-- The paths within an application are put inside it. -/
theorem nesting {body : Parser (List Application) Expr} (hmoves : (nesting rule body).MovesOn 0)
    (hbody : ∀ c, ∀ path ∈ (body.run c).notes, ((rule, c.offset) :: path).IsChain (Inside c.text.size)) :
    Nests rule (nesting rule body) where
  movesOn := hmoves
  path c path hpath := by
    obtain rfl | hinner := List.mem_cons.mp hpath
    · exact ⟨rfl, .singleton _⟩
    · obtain ⟨inner, hmem, rfl⟩ := List.mem_map.mp hinner
      exact ⟨rfl, hbody c inner hmem⟩

theorem recursive {body : Parser (List Application) Expr → Parser (List Application) Expr}
    (h : ∀ p, Nests rule p → Nests rule (body p)) : Nests rule (.recursive body) := by
  have hunroll (depth : Nat) : Nests rule (.unroll body depth) := Parser.unroll_induction endless h depth
  exact ⟨.of_unroll fun depth => (hunroll depth).movesOn, fun c => (hunroll (c.room + 1)).path c⟩

theorem watchedNumber : Nests .number (watchedNumber Grammar.nesting) := by
  refine .nesting ((movesOn_watchedNumber unobtrusive_nesting).mono (Nat.zero_le 1)) ?_
  intro c path hpath
  rw [Parser.scans_number.notes_eq_nil fun hc => run_number_of_not_inReach hc] at hpath
  exact absurd hpath List.not_mem_nil

variable {sum : Parser (List Application) Expr}

theorem watchedFactor (hsum : Nests .sum sum) : Nests .factor (watchedFactor Grammar.nesting sum) := by
  refine .nesting ((movesOn_watchedFactor unobtrusive_nesting hsum.movesOn).mono (Nat.zero_le 1)) ?_
  intro c path hpath
  obtain henclosed | hnumber := Parser.mem_notes_of_orElse hpath
  · obtain hopened | ⟨_, -, hclosing⟩ := Parser.mem_notes_of_bind henclosed
    · obtain hopening | ⟨opened, hmatch, hinner⟩ := Parser.mem_notes_of_bind hopened
      · exact absurd hopening (Parser.notMem_notes_symbol '(')
      · exact hsum.isChain_cons_of_onward (Parser.MovesOn.symbol _ c opened hmatch) _ hinner
    · exact absurd (Parser.mem_notes_of_map hclosing) (Parser.notMem_notes_symbol ')')
  · exact watchedNumber.isChain_cons hnumber (inside_of_rank_lt (by decide) _ _)

theorem chain {k : Chain} (hchain : rule.chain? = some k) {operand rhs : Parser (List Application) Expr}
    (hoperand : Nests k.operand operand) (hrhs : Nests rule rhs) :
    Nests rule (Grammar.nesting rule (chain operand (String.singleton k.sign.char) rhs (.node k.op))) := by
  refine .nesting (unobtrusive_nesting.movesOn rule (hoperand.movesOn.chain _ hrhs.movesOn _)) ?_
  intro c path hpath
  obtain hleft | ⟨left, hmatch, hafter⟩ := Parser.mem_notes_of_bind hpath
  · exact hoperand.isChain_cons hleft (inside_of_rank_lt (rank_operand_lt hchain) _ _)
  · obtain hright | hnothing := Parser.mem_notes_of_orElse hafter
    · obtain hsign | ⟨signed, hsigned, hinner⟩ := Parser.mem_notes_of_bind (Parser.mem_notes_of_map hright)
      · exact absurd hsign (Parser.notMem_notes_symbol _)
      · have honward := (hoperand.movesOn c left hmatch).trans (Parser.MovesOn.symbol _ left.rest signed hsigned)
        exact hrhs.isChain_cons_of_onward honward _ hinner
    · exact absurd hnothing List.not_mem_nil

theorem watchedProduct (hsum : Nests .sum sum) : Nests .product (watchedProduct Grammar.nesting sum) :=
  recursive fun _ hproduct => chain (k := ⟨.factor, .times, .times⟩) rfl (watchedFactor hsum) hproduct

theorem nestedSum : Nests .sum nestedSum :=
  recursive fun _ hsum => chain (k := ⟨.product, .plus, .plus⟩) rfl (watchedProduct hsum) hsum

end Nests

/-- Of two applications of one rule, one inside the other, the inner one starts further on. -/
theorem Inside.lt_of_rule_eq {size : Nat} {outer inner : Application} (h : Inside size outer inner)
    (hrule : outer.1 = inner.1) : outer.2 < inner.2 ∧ inner.2 ≤ size := by
  obtain hfurther | ⟨-, hrank⟩ := h
  · exact hfurther
  · rw [hrule] at hrank
    exact absurd hrank (Nat.lt_irrefl _)

theorem pairwise_of_mem_nestedSum {c : Cursor} {path : List Application} (hpath : path ∈ (nestedSum.run c).notes) :
    path.Pairwise fun outer inner => outer.1 = inner.1 → outer.2 < inner.2 ∧ inner.2 ≤ (c.text.size : Int) := by
  have : Trans (Inside c.text.size) (Inside c.text.size) (Inside c.text.size) := ⟨Inside.trans⟩
  have hchain := (Nests.nestedSum.path c path hpath).2
  exact (List.isChain_iff_pairwise.mp hchain).imp Inside.lt_of_rule_eq

theorem exit_nestedSum {c : Cursor} (hc : c.InReach) : ∃ result, (nestedSum.run c).exit = .returned result ∧
    ((sum : Parser ω Expr).run c).exit = .returned result := by
  obtain ⟨_, result, hcourse, hrun⟩ := followsQuietly_sum (ω := List Application) hc
  obtain ⟨_, result', hcourse', hrun'⟩ := followsQuietly_sum (ω := ω) hc
  obtain rfl := hcourse.result_unique hcourse'
  refine ⟨_, ?_, congrArg Traced.exit hrun'⟩
  rw [nestedSum, sameExits_watchedSum unobtrusive_nesting, hrun]

end Grammar

/-- Every combinator makes parsers that only move forward out of such parsers, and every rule of the
grammar reads at least one character. Reading a sum comes to an end from every place, and between
two applications of one rule inside one another the place moves on and stays inside the text. -/
theorem cursors_move_forward {ω : Type} :
    Parser.ClosedUnderCombinators (ω := ω) (fun p => p.MovesOn 0) ∧
    (∀ rule : Rule, (Grammar.parser rule : Parser ω Expr).MovesOn 1) ∧
    ∀ (text : String) (offset : Nat), ∃ result,
      (Grammar.nestedSum.run ((Cursor.ofString text).advance offset)).exit = .returned result ∧
      ((Grammar.sum : Parser ω Expr).run ((Cursor.ofString text).advance offset)).exit = .returned result ∧
      ∀ path ∈ (Grammar.nestedSum.run ((Cursor.ofString text).advance offset)).notes,
        path.Pairwise fun outer inner => outer.1 = inner.1 → outer.2 < inner.2 ∧ inner.2 ≤ (text.length : Int) := by
  refine ⟨Parser.closed_movesOn, Grammar.movesOn_rule, ?_⟩
  intro text offset
  have hc : ((Cursor.ofString text).advance offset).InReach := by
    apply Cursor.inReach_of_nonneg
    simp [Cursor.ofString]
  have hsize : ((Cursor.ofString text).advance offset).text.size = text.length := by
    simp [Cursor.ofString, String.length_toList]
  obtain ⟨result, hnested, hsum⟩ := Grammar.exit_nestedSum (ω := ω) hc
  refine ⟨result, hnested, hsum, ?_⟩
  intro path hpath
  rw [← hsize]
  exact Grammar.pairwise_of_mem_nestedSum hpath

/-- A product in a sum in parentheses. -/
example : [(Rule.sum, 0), (.product, 0), (.factor, 0), (.sum, 1), (.product, 1)] ∈
    (Grammar.nestedSum.run ⟨#['(', '1', ')'], 0⟩).notes := by
  decide

end Reckoner
