import Mathlib
import Reckoner.Proofs.Grammar.Exactness

/-!
# Every rule at most once at every place

No course applies a rule twice at the same place. Going down from a rule to its operands keeps the
place but never comes back to the rule, and a right-hand side or the inside of parentheses starts
further on. What needs an argument is that an operand has not already been where the right-hand side
after it goes. An operand that matches has looked beyond its match only if it has left a sign of its
own unread there, and then the sign that the right-hand side waits for is not the one that comes
next. So reading one text costs at most one application for every rule and every place.
-/

namespace Reckoner

open Grammar

def Rule.rank : Rule → Nat
  | number => 0
  | factor => 1
  | product => 2
  | sum => 3

/-- The signs that a match of the rule can have left unread after having looked at what comes after
them. -/
def Rule.retractable : Rule → List Sign
  | sum => [.plus, .times]
  | product => [.times]
  | factor => []
  | number => []

theorem rank_operand_lt {rule : Rule} {k : Chain} (h : rule.chain? = some k) : k.operand.rank < rule.rank := by
  cases rule <;> cases h <;> decide

theorem retractable_of_chain {rule : Rule} {k : Chain} (h : rule.chain? = some k) :
    rule.retractable = k.sign :: k.operand.retractable := by
  cases rule <;> cases h <;> rfl

theorem sign_notMem_retractable {rule : Rule} {k : Chain} (h : rule.chain? = some k) :
    k.sign ∉ k.operand.retractable := by
  cases rule <;> cases h <;> decide

theorem closing_notMem_retractable (rule : Rule) : Sign.closing ∉ rule.retractable := by
  cases rule <;> decide

/-- Reading has not looked at what is left, or what is left begins with a sign that the rule has
left unread. -/
def Settled (rule : Rule) (visits : List Visit) (rest : List Char) : Prop :=
  (∀ visit ∈ visits, rest.length < visit.2.length) ∨ ∃ s ∈ rule.retractable, ∃ after, afterSign? s.char rest = some after

/-- If another sign comes next, reading has not looked at what is left. -/
theorem Settled.length_lt {rule : Rule} {visits : List Visit} {rest after : List Char} {s : Sign}
    (h : Settled rule visits rest) (hsign : afterSign? s.char rest = some after) (hs : s ∉ rule.retractable) :
    ∀ visit ∈ visits, rest.length < visit.2.length := by
  apply h.resolve_right
  rintro ⟨t, ht, _, hother⟩
  have hne : t.char ≠ s.char := fun heq => hs (Sign.char_injective heq ▸ ht)
  exact absurd (hsign.symm.trans (afterSign?_eq_none_of_ne hother hne)) nofun

theorem Derivation.tokens_ne_nil {rule : Rule} (d : Derivation rule) : d.tokens ≠ [] := by
  induction d with
  | number | enclosed => exact List.cons_ne_nil _ _
  | bare _ ih | alone _ _ ih => exact ih
  | chained => exact List.append_ne_nil_of_right_ne_nil _ (List.cons_ne_nil _ _)

theorem LaidOut.length_pos {tokens : List Token} {laid : List Char} (h : LaidOut tokens laid) (htokens : tokens ≠ []) :
    0 < laid.length := by
  cases h with
  | nil => exact absurd rfl htokens
  | cons count token h =>
    have hpositive := List.length_pos_iff.mpr token.text_ne_nil
    simp only [List.length_append]
    omega

namespace Grammar.Course

variable {rule : Rule} {text : List Char} {visits : List Visit} {result : Option (Derivation rule × List Char)}

theorem rest_length_lt (h : Course rule text visits result) : ∀ found ∈ result, found.2.length < text.length := by
  intro found hfound
  obtain ⟨laid, htext, hlaid⟩ := h.exists_laidOut found hfound
  have hpositive := hlaid.length_pos found.1.tokens_ne_nil
  rw [htext, List.length_append]
  omega

theorem settled (h : Course rule text visits result) : ∀ found ∈ result, Settled rule visits found.2 := by
  induction h with
  | number h =>
    intro found hfound
    have hless := (Course.number h).rest_length_lt found hfound
    exact .inl (List.forall_mem_singleton.mpr hless)
  | bare hopen hnumber ih =>
    intro found hfound
    have hless := (Course.bare hopen hnumber).rest_length_lt found hfound
    obtain ⟨inner, hinner, rfl⟩ := Option.map_eq_some_iff.mp hfound
    have hinside := (ih inner hinner).resolve_right (by simp [Rule.retractable])
    exact .inl (List.forall_mem_cons.mpr ⟨hless, hinside⟩)
  | enclosed hopen hsum hclose ih =>
    rintro found ⟨⟩
    have hless := (Course.enclosed hopen hsum hclose).rest_length_lt _ rfl
    have hinside := (ih _ rfl).length_lt (s := .closing) hclose (closing_notMem_retractable _)
    have hclosing := length_lt_of_afterSign? hclose
    exact .inl (List.forall_mem_cons.mpr ⟨hless, fun visit hvisit => hclosing.trans (hinside visit hvisit)⟩)
  | unclosed | missing => simp
  | alone hchain hoperand hsign ih =>
    rintro found ⟨⟩
    have hless := (Course.alone hchain hoperand hsign).rest_length_lt _ rfl
    obtain hinside | ⟨s, hs, hafter⟩ := ih _ rfl
    · exact .inl (List.forall_mem_cons.mpr ⟨hless, hinside⟩)
    · refine .inr ⟨s, ?_, hafter⟩
      rw [retractable_of_chain hchain]
      exact List.mem_cons_of_mem _ hs
  | retracted hchain _ hsign _ ih =>
    rintro found ⟨⟩
    refine .inr ⟨_, ?_, _, hsign⟩
    rw [retractable_of_chain hchain]
    exact List.mem_cons_self
  | chained hchain hoperand hsign hrhs ih ihmore =>
    rintro found ⟨⟩
    have hless := (Course.chained hchain hoperand hsign hrhs).rest_length_lt _ rfl
    -- The sign of the chain comes after the operand, so the operand has left none of its own unread.
    have hinside := (ih _ rfl).length_lt hsign (sign_notMem_retractable hchain)
    have hcloser := (hrhs.rest_length_lt _ rfl).trans (length_lt_of_afterSign? hsign)
    obtain hright | hretracted := ihmore _ rfl
    · refine .inl (List.forall_mem_append.mpr ⟨List.forall_mem_cons.mpr ⟨hless, ?_⟩, hright⟩)
      exact fun visit hvisit => hcloser.trans (hinside visit hvisit)
    · exact .inr hretracted

theorem visits_length_le (h : Course rule text visits result) : ∀ visit ∈ visits, visit.2.length ≤ text.length :=
  fun visit hvisit => (h.visits_suffix visit hvisit).length_le

/-- A visit is further on, or of a rule that is not above this one. -/
theorem visits_rank (h : Course rule text visits result) :
    ∀ visit ∈ visits, visit.2.length < text.length ∨ visit.1.rank ≤ rule.rank := by
  have hown (rule : Rule) (text : List Char) : text.length < text.length ∨ rule.rank ≤ rule.rank :=
    .inr (Nat.le_refl _)
  induction h with
  | number => exact List.forall_mem_singleton.mpr (hown _ _)
  | bare _ _ ih =>
    refine List.forall_mem_cons.mpr ⟨hown _ _, fun visit hvisit => ?_⟩
    exact (ih visit hvisit).imp_right fun hrank => hrank.trans (Nat.zero_le _)
  | enclosed hopen hsum =>
    refine List.forall_mem_cons.mpr ⟨hown _ _, fun visit hvisit => .inl ?_⟩
    exact (hsum.visits_length_le visit hvisit).trans_lt (length_lt_of_afterSign? hopen)
  | unclosed hopen hsum =>
    refine List.forall_mem_append.mpr ⟨List.forall_mem_cons.mpr ⟨hown _ _, fun visit hvisit => .inl ?_⟩, ?_⟩
    · exact (hsum.visits_length_le visit hvisit).trans_lt (length_lt_of_afterSign? hopen)
    · exact List.forall_mem_singleton.mpr (.inr (Nat.zero_le _))
  | missing hchain _ ih | alone hchain _ _ ih =>
    refine List.forall_mem_cons.mpr ⟨hown _ _, fun visit hvisit => ?_⟩
    exact (ih visit hvisit).imp_right fun hrank => hrank.trans (rank_operand_lt hchain).le
  | retracted hchain hoperand hsign hrhs ih | chained hchain hoperand hsign hrhs ih =>
    refine List.forall_mem_append.mpr ⟨List.forall_mem_cons.mpr ⟨hown _ _, fun visit hvisit => ?_⟩, ?_⟩
    · exact (ih visit hvisit).imp_right fun hrank => hrank.trans (rank_operand_lt hchain).le
    · intro visit hvisit
      have hcloser := (length_lt_of_afterSign? hsign).trans (hoperand.rest_length_lt _ rfl)
      exact .inl ((hrhs.visits_length_le visit hvisit).trans_lt hcloser)

/-- A rule is not visited again where one that is below it is read. -/
theorem notMem_of_rank_lt {above : Rule} (h : Course rule text visits result) (hrank : rule.rank < above.rank) :
    (above, text) ∉ visits := by
  intro hmem
  obtain hless | hle := h.visits_rank _ hmem
  · exact absurd hless (Nat.lt_irrefl _)
  · exact absurd hrank (Nat.not_lt.mpr hle)

theorem notMem_of_length_lt {above : Rule} {before : List Char} (h : Course rule text visits result)
    (hbefore : text.length < before.length) : (above, before) ∉ visits :=
  fun hmem => absurd hbefore (Nat.not_lt.mpr (h.visits_length_le _ hmem))

theorem nodup_visits (h : Course rule text visits result) : visits.Nodup := by
  induction h with
  | number => exact List.nodup_singleton _
  | bare _ hnumber ih => exact List.nodup_cons.mpr ⟨hnumber.notMem_of_rank_lt (by decide), ih⟩
  | enclosed hopen hsum _ ih =>
    exact List.nodup_cons.mpr ⟨hsum.notMem_of_length_lt (length_lt_of_afterSign? hopen), ih⟩
  | @unclosed text _ _ _ hopen hsum _ ih =>
    have hlater := length_lt_of_afterSign? hopen
    have hnumber : (Rule.number, text) ∉ (Rule.factor, text) :: _ :=
      List.not_mem_cons_of_ne_of_not_mem (by simp) (hsum.notMem_of_length_lt hlater)
    rw [← List.concat_eq_append]
    exact (List.nodup_cons.mpr ⟨hsum.notMem_of_length_lt hlater, ih⟩).concat hnumber
  | missing hchain hoperand ih | alone hchain hoperand _ ih =>
    exact List.nodup_cons.mpr ⟨hoperand.notMem_of_rank_lt (rank_operand_lt hchain), ih⟩
  | retracted hchain hoperand hsign hrhs ih ihmore | chained hchain hoperand hsign hrhs ih ihmore =>
    have hinside := (hoperand.settled _ rfl).length_lt hsign (sign_notMem_retractable hchain)
    have hcloser := length_lt_of_afterSign? hsign
    have hless := hoperand.rest_length_lt _ rfl
    refine List.Nodup.append (List.nodup_cons.mpr ⟨hoperand.notMem_of_rank_lt (rank_operand_lt hchain), ih⟩) ihmore ?_
    intro visit hvisit hmore
    have hle := hrhs.visits_length_le visit hmore
    obtain rfl | hmem := List.mem_cons.mp hvisit
    · exact absurd (hle.trans_lt (hcloser.trans hless)) (Nat.lt_irrefl _)
    · exact absurd (hle.trans_lt (hcloser.trans (hinside visit hmem))) (Nat.lt_irrefl _)

/-- At most four rules at each place, the end of the text included. -/
theorem length_visits_le (h : Course rule text visits result) : visits.length ≤ 4 * (text.length + 1) := by
  have hsubset : visits ⊆ [.sum, .product, .factor, .number] ×ˢ text.tails := by
    intro visit hvisit
    refine List.mem_product.mpr ⟨?_, (List.mem_tails _ _).mpr (h.visits_suffix visit hvisit)⟩
    cases visit.1 <;> simp
  have hlength := (List.subperm_of_subset h.nodup_visits hsubset).length_le
  rwa [List.length_product, List.length_tails] at hlength

end Grammar.Course

/-! ### What a watched run notes -/

/-- The grammar of sums, noting each application of a rule together with the offset where it is
applied. -/
def Grammar.notedSum : Parser (Rule × Int) Expr :=
  watchedSum fun rule p => p.watched fun c => (rule, c.offset)

theorem notesOn_offset (c : Cursor) (visits : List Visit) :
    notesOn (fun rule c => [(rule, c.offset)]) c visits = visits.map fun visit => (visit.1, (c.upTo visit.2).offset) :=
  List.map_eq_flatMap.symm

theorem exists_course_of_notedSum {c : Cursor} (hc : c.InReach) : ∃ visits result, Course .sum c.ahead visits result ∧
    notedSum.run c =
      ⟨visits.map fun visit => (visit.1, (c.upTo visit.2).offset), .returned (result.map (parsedTree c))⟩ := by
  obtain ⟨visits, result, hcourse, hrun⟩ :=
    follows_watchedSum (watching_watched fun rule c => (rule, c.offset)) hc
  rw [notesOn_offset] at hrun
  exact ⟨visits, result, hcourse, hrun⟩

/-- Noting the applications of rules changes nothing about the result. -/
theorem exit_notedSum {c : Cursor} (hc : c.InReach) : ∃ result, (notedSum.run c).exit = .returned result ∧
    ((sum : Parser Empty Expr).run c).exit = .returned result := by
  obtain ⟨visits, result, hcourse, hrun⟩ := exists_course_of_notedSum hc
  obtain ⟨visits', result', hcourse', hrun'⟩ := follows_watchedSum (watching_nothing (ω := Empty)) hc
  obtain rfl := hcourse.result_unique hcourse'
  exact ⟨_, congrArg Traced.exit hrun, congrArg Traced.exit hrun'⟩

theorem nodup_notedSum {c : Cursor} (hc : c.InReach) : (notedSum.run c).notes.Nodup := by
  obtain ⟨visits, result, hcourse, hrun⟩ := exists_course_of_notedSum hc
  rw [hrun]
  apply hcourse.nodup_visits.map_on
  intro visit hvisit other hother heq
  obtain ⟨hrule, hoffset⟩ := Prod.mk.inj heq
  have hsuffix := hcourse.visits_suffix visit hvisit
  exact Prod.ext hrule (Cursor.eq_of_offset_upTo hc hsuffix (hcourse.visits_suffix other hother) hoffset)

/-- From no offset is a rule applied twice at the same place, so from the beginning of a text at
most four rules are applied at each place. -/
theorem notedSum_applies_once (text : String) :
    (∀ offset : Nat, ∃ result,
      (notedSum.run ((Cursor.ofString text).advance offset)).exit = .returned result ∧
      ((sum : Parser Empty Expr).run ((Cursor.ofString text).advance offset)).exit = .returned result ∧
      (notedSum.run ((Cursor.ofString text).advance offset)).notes.Nodup) ∧
    (notedSum.run (.ofString text)).notes.length ≤ 4 * (text.length + 1) := by
  constructor
  · intro offset
    have hc : ((Cursor.ofString text).advance offset).InReach := by
      apply Cursor.inReach_of_nonneg
      simp [Cursor.ofString]
    obtain ⟨result, hnoted, hsum⟩ := exit_notedSum hc
    exact ⟨result, hnoted, hsum, nodup_notedSum hc⟩
  · obtain ⟨visits, result, hcourse, hrun⟩ := exists_course_of_notedSum (Cursor.inReach_ofString text)
    have hlength := hcourse.length_visits_le
    rw [Cursor.ahead_ofString, String.length_toList] at hlength
    rw [hrun, List.length_map]
    exact hlength

end Reckoner
