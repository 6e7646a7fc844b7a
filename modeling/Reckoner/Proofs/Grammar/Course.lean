import Mathlib
import Reckoner.Proofs.Grammar.Derivation
import Reckoner.Proofs.Parser.Lexical
import Reckoner.Proofs.Parser.Run

/-!
# The course of reading

What the rules do with a text, without cursors, depths and notes: one constructor for each way in
which the reading of a rule can go, with the rules that were applied on the way and where. The
grammar follows such a course at every cursor that is not before the beginning of its text, so it
always comes to an end there, and what is to be known about it is proved by induction on the course.
-/

namespace Reckoner

namespace Grammar

variable {ω : Type}

/-- A rule together with the text ahead of where it is applied. -/
abbrev Visit := Rule × List Char

/-- Reading a text by a rule applies these rules at these texts, in order, and either fails or gives
a derivation and the text after it. -/
inductive Course : (rule : Rule) → List Char → List Visit → Option (Derivation rule × List Char) → Prop
  | number {text result} (h : (readNumber? text).map (fun found => (.number found.1, found.2)) = result) :
    Course .number text [(.number, text)] result
  /-- The text does not begin with a parenthesis. -/
  | bare {text visits result} (hopen : afterSign? '(' text = none) (hnumber : Course .number text visits result) :
    Course .factor text ((.factor, text) :: visits) (result.map fun found => (.bare found.1, found.2))
  | enclosed {text inner visits d after rest} (hopen : afterSign? '(' text = some inner)
    (hsum : Course .sum inner visits (some (d, after))) (hclose : afterSign? ')' after = some rest) :
    Course .factor text ((.factor, text) :: visits) (some (.enclosed d, rest))
  /-- There is no sum after the parenthesis, or none that is closed, and a parenthesis begins no
  number. -/
  | unclosed {text inner visits result} (hopen : afterSign? '(' text = some inner)
    (hsum : Course .sum inner visits result) (hclose : result.bind (fun found => afterSign? ')' found.2) = none) :
    Course .factor text ((.factor, text) :: visits ++ [(.number, text)]) none
  | missing {rule k text visits} (hchain : rule.chain? = some k) (hoperand : Course k.operand text visits none) :
    Course rule text ((rule, text) :: visits) none
  | alone {rule k text visits left after} (hchain : rule.chain? = some k)
    (hoperand : Course k.operand text visits (some (left, after))) (hsign : afterSign? k.sign.char after = none) :
    Course rule text ((rule, text) :: visits) (some (.alone hchain left, after))
  /-- The sign is there but nothing that could stand on its right, so it is left unread. -/
  | retracted {rule k text visits left after inner more} (hchain : rule.chain? = some k)
    (hoperand : Course k.operand text visits (some (left, after)))
    (hsign : afterSign? k.sign.char after = some inner) (hrhs : Course rule inner more none) :
    Course rule text ((rule, text) :: visits ++ more) (some (.alone hchain left, after))
  | chained {rule k text visits left after inner more right rest} (hchain : rule.chain? = some k)
    (hoperand : Course k.operand text visits (some (left, after)))
    (hsign : afterSign? k.sign.char after = some inner) (hrhs : Course rule inner more (some (right, rest))) :
    Course rule text ((rule, text) :: visits ++ more) (some (.chained hchain left right, rest))

namespace Course

variable {rule : Rule} {text : List Char} {visits : List Visit} {result : Option (Derivation rule × List Char)}

theorem rest_suffix (h : Course rule text visits result) : ∀ found ∈ result, found.2 <:+ text := by
  induction h with
  | number h =>
    subst h
    intro found hfound
    obtain ⟨⟨l, rest⟩, hread, rfl⟩ := Option.map_eq_some_iff.mp hfound
    exact readNumber?_suffix hread
  | bare _ _ ih =>
    intro found hfound
    obtain ⟨inner, hinner, rfl⟩ := Option.map_eq_some_iff.mp hfound
    exact ih inner hinner
  | enclosed hopen _ hclose ih =>
    rintro found ⟨⟩
    exact (afterSign?_suffix hclose).trans ((ih _ rfl).trans (afterSign?_suffix hopen))
  | unclosed => simp
  | missing => simp
  | alone _ _ _ ih | retracted _ _ _ _ ih =>
    rintro found ⟨⟩
    exact ih _ rfl
  | chained _ _ hsign _ ih ihmore =>
    rintro found ⟨⟩
    exact (ihmore _ rfl).trans ((afterSign?_suffix hsign).trans (ih _ rfl))

theorem inner_suffix {sign : Char} {after inner : List Char} (h : Course rule text visits result)
    {d : Derivation rule} (hresult : result = some (d, after)) (hsign : afterSign? sign after = some inner) : inner <:+ text :=
  (afterSign?_suffix hsign).trans (h.rest_suffix (d, after) hresult)

theorem visits_suffix (h : Course rule text visits result) : ∀ visit ∈ visits, visit.2 <:+ text := by
  induction h with
  | number => exact List.forall_mem_singleton.mpr List.suffix_rfl
  | bare _ _ ih | missing _ _ ih | alone _ _ _ ih => exact List.forall_mem_cons.mpr ⟨List.suffix_rfl, ih⟩
  | enclosed hopen _ _ ih =>
    have hinner := afterSign?_suffix hopen
    exact List.forall_mem_cons.mpr ⟨List.suffix_rfl, fun visit hvisit => (ih visit hvisit).trans hinner⟩
  | unclosed hopen _ _ ih =>
    have hinner := afterSign?_suffix hopen
    refine List.forall_mem_append.mpr ⟨List.forall_mem_cons.mpr ⟨List.suffix_rfl, ?_⟩, ?_⟩
    · exact fun visit hvisit => (ih visit hvisit).trans hinner
    · exact List.forall_mem_singleton.mpr List.suffix_rfl
  | retracted _ hoperand hsign _ ih ihmore | chained _ hoperand hsign _ ih ihmore =>
    have hinner := hoperand.inner_suffix rfl hsign
    refine List.forall_mem_append.mpr ⟨List.forall_mem_cons.mpr ⟨List.suffix_rfl, ih⟩, ?_⟩
    exact fun visit hvisit => (ihmore visit hvisit).trans hinner

theorem of_number {result : Option (Derivation .number × List Char)} (h : Course .number text visits result) :
    visits = [(.number, text)] ∧ result = (readNumber? text).map fun found => (.number found.1, found.2) := by
  cases h with
  | number h => exact ⟨rfl, h.symm⟩
  | missing hchain | alone hchain | retracted hchain | chained hchain => simp [Rule.chain?] at hchain

theorem of_factor {result : Option (Derivation .factor × List Char)} (h : Course .factor text visits result) :
    (afterSign? '(' text = none ∧ ∃ more number, Course .number text more number ∧
      result = number.map fun found => (.bare found.1, found.2)) ∨
    ∃ inner more sum, afterSign? '(' text = some inner ∧ Course .sum inner more sum ∧
      result = sum.bind fun found => (afterSign? ')' found.2).map fun rest => (.enclosed found.1, rest) := by
  cases h with
  | bare hopen hnumber => exact .inl ⟨hopen, _, _, hnumber, rfl⟩
  | enclosed hopen hsum hclose =>
    refine .inr ⟨_, _, _, hopen, hsum, ?_⟩
    rw [Option.bind_some, hclose, Option.map_some]
  | unclosed hopen hsum hclose =>
    refine .inr ⟨_, _, _, hopen, hsum, Eq.symm ?_⟩
    simpa only [Option.bind_eq_none_iff, Option.map_eq_none_iff] using hclose
  | missing hchain | alone hchain | retracted hchain | chained hchain => simp [Rule.chain?] at hchain

theorem of_chain {k : Chain} (hchain : rule.chain? = some k) (h : Course rule text visits result) :
    (∃ more, Course k.operand text more none ∧ result = none) ∨
    ∃ more left after, Course k.operand text more (some (left, after)) ∧
      (afterSign? k.sign.char after = none ∧ result = some (.alone hchain left, after) ∨
      ∃ inner others rhs, afterSign? k.sign.char after = some inner ∧ Course rule inner others rhs ∧
        result = some (rhs.elim (.alone hchain left, after) fun found => (.chained hchain left found.1, found.2))) := by
  cases h with
  | number | bare | enclosed | unclosed => simp [Rule.chain?] at hchain
  | missing hchain' hoperand =>
    obtain rfl := Option.some.inj (hchain.symm.trans hchain')
    exact .inl ⟨_, hoperand, rfl⟩
  | alone hchain' hoperand hsign =>
    obtain rfl := Option.some.inj (hchain.symm.trans hchain')
    exact .inr ⟨_, _, _, hoperand, .inl ⟨hsign, rfl⟩⟩
  | retracted hchain' hoperand hsign hrhs | chained hchain' hoperand hsign hrhs =>
    obtain rfl := Option.some.inj (hchain.symm.trans hchain')
    exact .inr ⟨_, _, _, hoperand, .inr ⟨_, _, _, hsign, hrhs, rfl⟩⟩

/-- What is read depends only on the text. -/
theorem result_unique {visits' : List Visit} {result' : Option (Derivation rule × List Char)}
    (h : Course rule text visits result) (h' : Course rule text visits' result') : result = result' := by
  induction h generalizing visits' with
  | number h =>
    rw [h'.of_number.2, h]
  | bare hopen _ ih =>
    obtain ⟨-, _, _, hnumber, rfl⟩ | ⟨_, _, _, hsome, -, -⟩ := h'.of_factor
    · rw [ih hnumber]
    · exact absurd (hsome.symm.trans hopen) nofun
  | enclosed hopen _ hclose ih =>
    obtain ⟨hnone, -⟩ | ⟨_, _, _, hsome, hsum, rfl⟩ := h'.of_factor
    · exact absurd (hnone.symm.trans hopen) nofun
    · obtain rfl := Option.some.inj (hsome.symm.trans hopen)
      rw [← ih hsum, Option.bind_some, hclose, Option.map_some]
  | unclosed hopen _ hclose ih =>
    obtain ⟨hnone, -⟩ | ⟨_, _, _, hsome, hsum, rfl⟩ := h'.of_factor
    · exact absurd (hnone.symm.trans hopen) nofun
    · obtain rfl := Option.some.inj (hsome.symm.trans hopen)
      rw [← ih hsum]
      symm
      simpa only [Option.bind_eq_none_iff, Option.map_eq_none_iff] using hclose
  | missing hchain _ ih =>
    obtain ⟨_, -, rfl⟩ | ⟨_, _, _, hsome, -⟩ := h'.of_chain hchain
    · rfl
    · exact absurd (ih hsome) nofun
  | alone hchain _ hsign ih =>
    obtain ⟨_, hnone, -⟩ | ⟨_, _, _, hsome, hafter⟩ := h'.of_chain hchain
    · exact absurd (ih hnone) nofun
    · obtain ⟨rfl, rfl⟩ := Prod.mk.inj (Option.some.inj (ih hsome))
      obtain ⟨-, rfl⟩ | ⟨_, _, _, hother, -, -⟩ := hafter
      · rfl
      · exact absurd (hother.symm.trans hsign) nofun
  | retracted hchain _ hsign _ ih ihmore | chained hchain _ hsign _ ih ihmore =>
    obtain ⟨_, hnone, -⟩ | ⟨_, _, _, hsome, hafter⟩ := h'.of_chain hchain
    · exact absurd (ih hnone) nofun
    · obtain ⟨rfl, rfl⟩ := Prod.mk.inj (Option.some.inj (ih hsome))
      obtain ⟨hnone, -⟩ | ⟨_, _, _, hother, hrhs, rfl⟩ := hafter
      · exact absurd (hnone.symm.trans hsign) nofun
      · obtain rfl := Option.some.inj (hother.symm.trans hsign)
        rw [← ihmore hrhs]
        rfl

end Course

/-! ### The grammar follows a course -/

/-- Watching a parser leaves notes about the cursor it is applied to, and does nothing else. -/
structure Watching (watch : Rule → Parser ω Expr → Parser ω Expr) (log : Rule → Cursor → List ω) : Prop where
  run : ∀ rule p c, (watch rule p).run c = ⟨log rule c ++ (p.run c).notes, (p.run c).exit⟩

theorem watching_nothing : Watching (ω := ω) (fun _ p => p) (fun _ _ => []) :=
  ⟨fun _ _ _ => rfl⟩

theorem watching_watched (observe : Rule → Cursor → ω) :
    Watching (fun rule p => p.watched (observe rule)) (fun rule c => [observe rule c]) :=
  ⟨fun _ _ _ => rfl⟩

/-- The notes on the visits of a course that starts at a cursor. -/
def notesOn (log : Rule → Cursor → List ω) (c : Cursor) (visits : List Visit) : List ω :=
  visits.flatMap fun visit => log visit.1 (c.upTo visit.2)

/-- What a run at a cursor gives for a derivation and the text after it. -/
def parsedTree {rule : Rule} (c : Cursor) (found : Derivation rule × List Char) : Parsed Expr :=
  ⟨found.1.tree, c.upTo found.2⟩

/-- A run at a cursor goes the way of some course of the rule on the text ahead. -/
def Follows (log : Rule → Cursor → List ω) (rule : Rule) (c : Cursor) (run : Traced ω (Option (Parsed Expr))) : Prop :=
  ∃ visits result, Course rule c.ahead visits result ∧ run = ⟨notesOn log c visits, .returned (result.map (parsedTree c))⟩

/-- The parser follows the rule wherever less room is left than at the cursor. -/
def FollowsFurtherOn (log : Rule → Cursor → List ω) (rule : Rule) (c : Cursor) (p : Parser ω Expr) : Prop :=
  ∀ c' : Cursor, c'.InReach → c'.room < c.room → Follows log rule c' (p.run c')

theorem notesOn_append (log : Rule → Cursor → List ω) (c : Cursor) (visits more : List Visit) :
    notesOn log c (visits ++ more) = notesOn log c visits ++ notesOn log c more :=
  List.flatMap_append

theorem notesOn_cons (log : Rule → Cursor → List ω) (rule : Rule) (c : Cursor) (visits : List Visit) :
    notesOn log c ((rule, c.ahead) :: visits) = log rule c ++ notesOn log c visits := by
  rw [notesOn, List.flatMap_cons, Cursor.upTo_ahead]
  rfl

section

variable {log : Rule → Cursor → List ω} {c : Cursor}

/-- A course from further on, seen from the cursor before it. -/
theorem Follows.from_upTo {rule : Rule} {inner : List Char} {run : Traced ω (Option (Parsed Expr))}
    (h : Follows log rule (c.upTo inner) run) (hc : c.InReach) (hinner : inner <:+ c.ahead) :
    ∃ visits result, Course rule inner visits result ∧
      run = ⟨notesOn log c visits, .returned (result.map (parsedTree c))⟩ := by
  obtain ⟨visits, result, hcourse, hrun⟩ := h
  rw [Cursor.ahead_upTo hc hinner] at hcourse
  refine ⟨visits, result, hcourse, ?_⟩
  have hnotes : notesOn log (c.upTo inner) visits = notesOn log c visits := by
    simp only [notesOn, List.flatMap]
    apply congrArg List.flatten
    apply List.map_congr_left
    intro visit hvisit
    rw [Cursor.upTo_upTo hc hinner (hcourse.visits_suffix visit hvisit)]
  have hresult : result.map (parsedTree (c.upTo inner)) = result.map (parsedTree c) := by
    apply Option.map_congr
    intro found hfound
    rw [parsedTree, parsedTree, Cursor.upTo_upTo hc hinner (hcourse.rest_suffix found hfound)]
  rw [hrun, hnotes, hresult]

theorem FollowsFurtherOn.mono {rule : Rule} {c' : Cursor} {p : Parser ω Expr} (h : FollowsFurtherOn log rule c p)
    (hroom : c'.room ≤ c.room) : FollowsFurtherOn log rule c' p :=
  fun inside hinside hcloser => h inside hinside (hcloser.trans_le hroom)

theorem FollowsFurtherOn.from_upTo {rule : Rule} {inner : List Char} {p : Parser ω Expr} (h : FollowsFurtherOn log rule c p)
    (hc : c.InReach) (hinner : inner <:+ c.ahead) (hshorter : inner.length < c.ahead.length) :
    ∃ visits result, Course rule inner visits result ∧
      p.run (c.upTo inner) = ⟨notesOn log c visits, .returned (result.map (parsedTree c))⟩ :=
  (h (c.upTo inner) (hc.upTo inner) (Cursor.room_upTo_lt hc hinner hshorter)).from_upTo hc hinner

/-- A recursive rule follows a course wherever its body does, with the rule following one further
on. -/
theorem follows_recursive {rule : Rule} {body : Parser ω Expr → Parser ω Expr} (bound : Nat)
    (hbody : ∀ p c, c.InReach → c.room ≤ bound → FollowsFurtherOn log rule c p → Follows log rule c ((body p).run c))
    (hc : c.InReach) (hroom : c.room ≤ bound) : Follows log rule c ((Parser.recursive body).run c) := by
  let P (c' : Cursor) (run : Traced ω (Option (Parsed Expr))) : Prop :=
    c'.InReach → c'.room ≤ bound → Follows log rule c' run
  refine Parser.recursive_induction (P := P) ?_ c hc hroom
  intro p c' ih hc' hroom'
  exact hbody p c' hc' hroom' fun inside hinside hcloser => ih inside hcloser hinside (hcloser.le.trans hroom')

variable {watch : Rule → Parser ω Expr → Parser ω Expr}

theorem follows_watchedNumber (hwatch : Watching watch log) (hc : c.InReach) :
    Follows log .number c ((watchedNumber watch).run c) := by
  refine ⟨[(.number, c.ahead)], _, .number rfl, ?_⟩
  rw [watchedNumber, hwatch.run, Parser.scans_number.run hc, notesOn_cons, Option.map_map, Option.map_map]
  rfl

/-- A sum in parentheses, once the sum is known to follow a course. -/
theorem run_enclosed {sum : Parser ω Expr} {inner : List Char} {visits : List Visit}
    {result : Option (Derivation .sum × List Char)} (hc : c.InReach) (hopen : afterSign? '(' c.ahead = some inner)
    (hcourse : Course .sum inner visits result)
    (hsum : sum.run (c.upTo inner) = ⟨notesOn log c visits, .returned (result.map (parsedTree c))⟩) :
    (((Parser.symbol "(").andThen sum).skip (.symbol ")")).run c =
      ⟨notesOn log c visits, .returned ((result.bind fun found =>
        (afterSign? ')' found.2).map fun rest => (found.1, rest)).map (parsedTree c))⟩ := by
  have hopening : (Parser.symbol "(" : Parser ω Char).run c = ⟨[], .returned (some (c.parsed ('(', inner)))⟩ :=
    Parser.run_symbol_of_some '(' hc hopen
  have hthen := Parser.run_andThen_of_some hopening hsum
  rw [List.nil_append] at hthen
  cases result with
  | none => exact Parser.run_skip_of_none hthen
  | some found =>
    obtain ⟨d, after⟩ := found
    have hafter : after <:+ c.ahead := (hcourse.rest_suffix _ rfl).trans (afterSign?_suffix hopen)
    have hahead := Cursor.ahead_upTo hc hafter
    rw [Option.bind_some]
    cases hclose : afterSign? ')' after with
    | none =>
      have hclosing : (Parser.symbol ")" : Parser ω Char).run (c.upTo after) = ⟨[], .returned none⟩ :=
        Parser.run_symbol_of_none ')' (hc.upTo after) (by rw [hahead, hclose])
      rw [Parser.run_skip_of_some hthen hclosing, List.append_nil]
      rfl
    | some rest =>
      have hclosing : (Parser.symbol ")" : Parser ω Char).run (c.upTo after) =
          ⟨[], .returned (some ((c.upTo after).parsed (')', rest)))⟩ :=
        Parser.run_symbol_of_some ')' (hc.upTo after) (by rw [hahead, hclose])
      rw [Parser.run_skip_of_some hthen hclosing, List.append_nil]
      simp only [Option.map_some, parsedTree, Cursor.parsed, Cursor.upTo_upTo hc hafter (afterSign?_suffix hclose)]

theorem follows_watchedFactor (hwatch : Watching watch log) (hc : c.InReach) {sum : Parser ω Expr}
    (hsum : FollowsFurtherOn log .sum c sum) : Follows log .factor c ((watchedFactor watch sum).run c) := by
  obtain ⟨number, found, hnumber, hrunNumber⟩ := follows_watchedNumber hwatch hc
  rw [watchedFactor, hwatch.run]
  cases hopen : afterSign? '(' c.ahead with
  | none =>
    have hopening : (Parser.symbol "(" : Parser ω Char).run c = ⟨[], .returned none⟩ :=
      Parser.run_symbol_of_none '(' hc hopen
    have hnone := Parser.run_skip_of_none (q := .symbol ")") (Parser.run_andThen_of_none (q := sum) hopening)
    refine ⟨_, _, .bare hopen hnumber, ?_⟩
    rw [Parser.run_orElse_of_none hnone hrunNumber, notesOn_cons, Option.map_map]
    rfl
  | some inner =>
    have hinner := afterSign?_suffix hopen
    obtain ⟨visits, result, hcourse, hrunSum⟩ := hsum.from_upTo hc hinner (length_lt_of_afterSign? hopen)
    have henclosed := run_enclosed hc hopen hcourse hrunSum
    cases hclosed : result.bind fun found => (afterSign? ')' found.2).map fun rest => (found.1, rest) with
    | none =>
      have hunclosed : result.bind (fun found => afterSign? ')' found.2) = none := by
        simpa only [Option.bind_eq_none_iff, Option.map_eq_none_iff] using hclosed
      obtain ⟨hvisits, hfound⟩ := hnumber.of_number
      rw [readNumber?_eq_none_of_afterSign? hopen (by decide), Option.map_none] at hfound
      rw [hclosed] at henclosed
      rw [hvisits, hfound] at hrunNumber
      refine ⟨_, _, .unclosed hopen hcourse hunclosed, ?_⟩
      rw [List.cons_append, notesOn_cons, notesOn_append, Parser.run_orElse_of_none henclosed hrunNumber]
      rfl
    | some found =>
      obtain ⟨⟨d, after⟩, hresult, hrest⟩ := Option.bind_eq_some_iff.mp hclosed
      obtain ⟨rest, hclose, rfl⟩ := Option.map_eq_some_iff.mp hrest
      rw [hclosed] at henclosed
      subst hresult
      refine ⟨_, _, .enclosed hopen hcourse hclose, ?_⟩
      rw [Parser.run_orElse_of_some henclosed, notesOn_cons]
      rfl

theorem follows_chain (hwatch : Watching watch log) (hc : c.InReach) {rule : Rule} {k : Chain}
    (hchain : rule.chain? = some k) {operand rhs : Parser ω Expr}
    (hoperand : Follows log k.operand c (operand.run c)) (hrhs : FollowsFurtherOn log rule c rhs) :
    Follows log rule c ((watch rule (chain operand (String.singleton k.sign.char) rhs (.node k.op))).run c) := by
  obtain ⟨visits, result, hcourse, hrunOperand⟩ := hoperand
  rw [hwatch.run, chain]
  cases result with
  | none =>
    refine ⟨_, _, .missing hchain hcourse, ?_⟩
    rw [notesOn_cons, Parser.run_bind_of_none hrunOperand]
    rfl
  | some found =>
    obtain ⟨left, after⟩ := found
    have hafter : after <:+ c.ahead := hcourse.rest_suffix _ rfl
    have hahead := Cursor.ahead_upTo hc hafter
    have halone := Parser.run_unit (ω := ω) left.tree (c.upTo after)
    cases hsign : afterSign? k.sign.char after with
    | none =>
      have hsymbol :
          (Parser.symbol (String.singleton k.sign.char) : Parser ω Char).run (c.upTo after) = ⟨[], .returned none⟩ :=
        Parser.run_symbol_of_none k.sign.char (hc.upTo after) (by rw [hahead, hsign])
      have hright := Parser.run_map_of_returned (Expr.node k.op left.tree) (Parser.run_andThen_of_none (q := rhs) hsymbol)
      refine ⟨_, _, .alone hchain hcourse hsign, ?_⟩
      rw [notesOn_cons, Parser.run_bind_of_some hrunOperand (Parser.run_orElse_of_none hright halone),
        List.append_nil, List.append_nil]
      rfl
    | some inner =>
      have hinner : inner <:+ c.ahead := (afterSign?_suffix hsign).trans hafter
      have hshorter : inner.length < c.ahead.length := Nat.lt_of_lt_of_le (length_lt_of_afterSign? hsign) hafter.length_le
      obtain ⟨more, found, hcourseRhs, hrunRhs⟩ := hrhs.from_upTo hc hinner hshorter
      have hsymbol : (Parser.symbol (String.singleton k.sign.char) : Parser ω Char).run (c.upTo after) =
          ⟨[], .returned (some ((c.upTo after).parsed (k.sign.char, inner)))⟩ :=
        Parser.run_symbol_of_some k.sign.char (hc.upTo after) (by rw [hahead, hsign])
      have hmoved : ((c.upTo after).parsed (k.sign.char, inner)).rest = c.upTo inner :=
        Cursor.upTo_upTo hc hafter (afterSign?_suffix hsign)
      have hthen := Parser.run_andThen_of_some hsymbol (hmoved ▸ hrunRhs)
      have hright := Parser.run_map_of_returned (Expr.node k.op left.tree) hthen
      rw [List.nil_append] at hright
      cases found with
      | none =>
        refine ⟨_, _, .retracted hchain hcourse hsign hcourseRhs, ?_⟩
        rw [List.cons_append, notesOn_cons, notesOn_append,
          Parser.run_bind_of_some hrunOperand (Parser.run_orElse_of_none hright halone), List.append_nil]
        rfl
      | some found =>
        refine ⟨_, _, .chained hchain hcourse hsign hcourseRhs, ?_⟩
        rw [List.cons_append, notesOn_cons, notesOn_append,
          Parser.run_bind_of_some hrunOperand (Parser.run_orElse_of_some hright)]
        rfl

theorem follows_watchedProduct (hwatch : Watching watch log) (hc : c.InReach) {sum : Parser ω Expr}
    (hsum : FollowsFurtherOn log .sum c sum) : Follows log .product c ((watchedProduct watch sum).run c) := by
  -- Sums are known to follow a course only further on than `c`, so a product must not lie before it.
  refine follows_recursive c.room ?_ hc (Nat.le_refl c.room)
  intro product c' hc' hroom hproduct
  have hfactor := follows_watchedFactor hwatch hc' (hsum.mono hroom)
  exact follows_chain hwatch hc' (k := ⟨.factor, .times, .times⟩) rfl hfactor hproduct

theorem follows_watchedSum (hwatch : Watching watch log) (hc : c.InReach) :
    Follows log .sum c ((watchedSum watch).run c) := by
  refine follows_recursive c.room ?_ hc (Nat.le_refl c.room)
  intro sum c' hc' _ hsum
  exact follows_chain hwatch hc' (k := ⟨.product, .plus, .plus⟩) rfl (follows_watchedProduct hwatch hc' hsum) hsum

end

/-! ### Without notes -/

/-- A run that leaves no notes and goes the way of some course. -/
abbrev FollowsQuietly (rule : Rule) (c : Cursor) (run : Traced ω (Option (Parsed Expr))) : Prop :=
  Follows (fun _ _ => []) rule c run

theorem notesOn_nothing (c : Cursor) (visits : List Visit) : notesOn (ω := ω) (fun _ _ => []) c visits = [] := by
  simp [notesOn]

theorem FollowsQuietly.exists_course {rule : Rule} {c : Cursor} {run : Traced ω (Option (Parsed Expr))}
    (h : FollowsQuietly rule c run) : ∃ visits result, Course rule c.ahead visits result ∧
      run = ⟨[], .returned (result.map (parsedTree c))⟩ := by
  obtain ⟨visits, result, hcourse, hrun⟩ := h
  rw [notesOn_nothing] at hrun
  exact ⟨visits, result, hcourse, hrun⟩

theorem followsQuietly_sum {c : Cursor} (hc : c.InReach) : FollowsQuietly .sum c ((sum : Parser ω Expr).run c) :=
  follows_watchedSum watching_nothing hc

end Grammar

end Reckoner
