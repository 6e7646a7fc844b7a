import Mathlib
import Reckoner.Report
import Reckoner.Proofs.Grammar.Exactness

/-!
# Reports on whole texts

Reading a text always comes to an end and is reported on, and the report goes by what the course of
a sum leaves of the text: nothing was found, a derivation was found that lays out the whole text, or
one that lays out a first part of it. The trees of derivations have only sums and products in them,
so evaluating them never fails.
-/

namespace Reckoner

open Grammar

theorem exists_meaning_of_chain {rule : Rule} {k : Chain} (h : rule.chain? = some k) :
    ∃ meaning, k.op.meaning? = some meaning := by
  cases rule <;> cases h <;> exact ⟨_, rfl⟩

theorem Derivation.exists_evaluate {rule : Rule} (d : Derivation rule) : ∃ value, d.tree.evaluate = .ok value := by
  induction d with
  | number l => exact ⟨l.value, rfl⟩
  | bare inner ih | enclosed inner ih | alone _ inner ih => exact ih
  | chained hchain left right ihleft ihright =>
    obtain ⟨x, hx⟩ := ihleft
    obtain ⟨y, hy⟩ := ihright
    obtain ⟨meaning, hmeaning⟩ := exists_meaning_of_chain hchain
    refine ⟨meaning x y, ?_⟩
    rw [tree, Expr.evaluate, hx, hy, hmeaning]
    rfl

theorem exists_course_of_run (text : String) : ∃ visits result, Course .sum text.toList visits result ∧
    (sum : Parser Empty Expr).run (.ofString text) = ⟨[], .returned (result.map (parsedTree (.ofString text)))⟩ := by
  obtain ⟨visits, result, hcourse, hrun⟩ := (followsQuietly_sum (Cursor.inReach_ofString text)).exists_course
  rw [Cursor.ahead_ofString] at hcourse
  exact ⟨visits, result, hcourse, hrun⟩

namespace Report

/-- The report that belongs to what reading the text as a sum gives. -/
inductive Reads (text : String) : Report → Prop
  | failed {visits} (h : Course .sum text.toList visits none) : Reads text ⟨text, .failed, none, none, none⟩
  | evaluated {visits d value} (h : Course .sum text.toList visits (some (d, [])))
    (hvalue : d.tree.evaluate = .ok value) : Reads text ⟨text, .evaluated, some d.tree, some value, none⟩
  | incomplete {visits d rest} (h : Course .sum text.toList visits (some (d, rest))) (hrest : rest ≠ []) :
    Reads text ⟨text, .incomplete, some d.tree, none, some (text.length - rest.length : Nat)⟩

theorem exists_reads (text : String) : ∃ report, Report.of text = .returned report ∧ Reads text report := by
  obtain ⟨visits, result, hcourse, hrun⟩ := exists_course_of_run text
  have hc := Cursor.inReach_ofString text
  unfold Report.of
  rw [hrun]
  cases result with
  | none => exact ⟨_, rfl, .failed hcourse⟩
  | some found =>
    obtain ⟨d, rest⟩ := found
    have hsuffix : rest <:+ (Cursor.ofString text).ahead := by
      rw [Cursor.ahead_ofString]
      exact hcourse.rest_suffix _ rfl
    have hend := Cursor.atEnd_iff_ahead_eq_nil (hc.upTo rest)
    rw [Cursor.ahead_upTo hc hsuffix] at hend
    obtain ⟨value, hvalue⟩ := d.exists_evaluate
    simp only [Option.map_some, parsedTree, Exit.returned_bind]
    by_cases hrest : rest = []
    · subst hrest
      rw [if_pos (hend.mpr rfl), hvalue]
      exact ⟨_, rfl, .evaluated hcourse hvalue⟩
    · rw [if_neg (mt hend.mp hrest)]
      refine ⟨_, rfl, ?_⟩
      rw [Cursor.offset_upTo, Cursor.ahead_ofString, String.length_toList]
      rw [show (Cursor.ofString text).offset = 0 from rfl, Int.zero_add]
      exact .incomplete hcourse hrest

namespace Reads

variable {text : String} {report : Report}

theorem exists_of_evaluated (h : Reads text report) (hevaluated : report.outcome = .evaluated) :
    ∃ d : Derivation .sum, LaidOut d.tokens text.toList ∧ report.tree = some d.tree := by
  cases h with
  | failed | incomplete => exact absurd hevaluated nofun
  | @evaluated visits d value hcourse hvalue =>
    obtain ⟨laid, htext, hlaid⟩ := hcourse.exists_laidOut _ rfl
    rw [List.append_nil] at htext
    exact ⟨d, htext ▸ hlaid, rfl⟩

theorem of_laidOut (h : Reads text report) {d : Derivation .sum} (hlaid : LaidOut d.tokens text.toList) :
    report.outcome = .evaluated ∧ report.tree = some d.tree := by
  cases h with
  | failed hcourse => exact absurd (d.eq_some_of_laidOut hlaid hcourse) nofun
  | evaluated hcourse hvalue =>
    obtain ⟨rfl, -⟩ := Prod.mk.inj (Option.some.inj (d.eq_some_of_laidOut hlaid hcourse))
    exact ⟨rfl, rfl⟩
  | incomplete hcourse hrest =>
    obtain ⟨-, hnil⟩ := Prod.mk.inj (Option.some.inj (d.eq_some_of_laidOut hlaid hcourse))
    exact absurd hnil hrest

end Reads

end Report

/-- The grammar is unambiguous. -/
theorem Derivation.eq_of_laidOut {d d' : Derivation .sum} {laid : List Char} (hlaid : LaidOut d.tokens laid)
    (hlaid' : LaidOut d'.tokens laid) : d = d' := by
  obtain ⟨visits, result, hcourse, -⟩ := exists_course_of_run (String.ofList laid)
  rw [String.toList_ofList] at hcourse
  have hread := d.eq_some_of_laidOut hlaid hcourse
  have hread' := d'.eq_some_of_laidOut hlaid' hcourse
  exact (Prod.mk.inj (Option.some.inj (hread.symm.trans hread'))).1

/-- A text is evaluated exactly if some derivation of a sum lays it out; there is only one such
derivation, and its tree is the one in the report. -/
theorem report_evaluated_iff_derivation (text : String) : ∃ report, Report.of text = .returned report ∧
    (report.outcome = .evaluated ↔ ∃ d : Derivation .sum, LaidOut d.tokens text.toList) ∧
    (∀ d d' : Derivation .sum, LaidOut d.tokens text.toList → LaidOut d'.tokens text.toList → d = d') ∧
    ∀ d : Derivation .sum, LaidOut d.tokens text.toList → report.tree = some d.tree := by
  obtain ⟨report, hreport, hreads⟩ := Report.exists_reads text
  refine ⟨report, hreport, ⟨?_, ?_⟩, ?_, ?_⟩
  · intro hevaluated
    obtain ⟨d, hlaid, -⟩ := hreads.exists_of_evaluated hevaluated
    exact ⟨d, hlaid⟩
  · rintro ⟨d, hlaid⟩
    exact (hreads.of_laidOut hlaid).1
  · exact fun _ _ hlaid hlaid' => Derivation.eq_of_laidOut hlaid hlaid'
  · exact fun _ hlaid => (hreads.of_laidOut hlaid).2

/-! ### The longest first part -/

/-- The report on the text says that it was evaluated. -/
def Evaluated (text : String) : Prop :=
  ∃ report, Report.of text = .returned report ∧ report.outcome = .evaluated

/-- The first characters of a text. -/
def firstPart (text : String) (length : Nat) : String :=
  String.ofList (text.toList.take length)

theorem evaluated_iff {text : String} : Evaluated text ↔ ∃ d : Derivation .sum, LaidOut d.tokens text.toList := by
  obtain ⟨report, hreport, hreads⟩ := Report.exists_reads text
  constructor
  · rintro ⟨other, hother, hevaluated⟩
    obtain rfl := Exit.returned.inj (hreport.symm.trans hother)
    obtain ⟨d, hlaid, -⟩ := hreads.exists_of_evaluated hevaluated
    exact ⟨d, hlaid⟩
  · rintro ⟨d, hlaid⟩
    exact ⟨report, hreport, (hreads.of_laidOut hlaid).1⟩

theorem firstPart_eq_of_append {text : String} {laid rest : List Char} (h : text.toList = laid ++ rest) :
    firstPart text laid.length = String.ofList laid := by
  rw [firstPart, h, List.take_left]

theorem exists_found_of_evaluated {text : String} {visits : List Visit}
    {result : Option (Derivation .sum × List Char)} (h : Course .sum text.toList visits result) {length : Nat}
    (hevaluated : Evaluated (firstPart text length)) : ∃ found ∈ result, found.2.length ≤ text.length - length := by
  obtain ⟨d, hlaid⟩ := evaluated_iff.mp hevaluated
  rw [firstPart, String.toList_ofList] at hlaid
  have hsplit : afterSpaces text.toList = afterSpaces (text.toList.take length ++ text.toList.drop length) := by
    rw [List.take_append_drop]
  obtain ⟨found, hfound, hshort⟩ := d.exists_found hlaid hsplit h
  rw [List.length_drop, String.length_toList] at hshort
  exact ⟨found, hfound, hshort⟩

section

variable {text : String} {visits : List Visit} {d : Derivation .sum} {rest : List Char}

theorem laidOut_firstPart_of_course (h : Course .sum text.toList visits (some (d, rest))) :
    LaidOut d.tokens (firstPart text (text.length - rest.length)).toList := by
  obtain ⟨laid, htext, hlaid⟩ := h.exists_laidOut _ rfl
  have hlength : text.length - rest.length = laid.length := by
    rw [← String.length_toList, htext, List.length_append, Nat.add_sub_cancel]
  rwa [hlength, firstPart_eq_of_append htext, String.toList_ofList]

/-- What a course of a sum has read is the longest first part that is evaluated. -/
theorem isGreatest_of_course (h : Course .sum text.toList visits (some (d, rest))) :
    IsGreatest {length | length ≤ text.length ∧ Evaluated (firstPart text length)} (text.length - rest.length) := by
  have hevaluated := evaluated_iff.mpr ⟨d, laidOut_firstPart_of_course h⟩
  refine ⟨⟨Nat.sub_le _ _, hevaluated⟩, ?_⟩
  intro length ⟨hle, hother⟩
  obtain ⟨found, hfound, hshort⟩ := exists_found_of_evaluated h hother
  obtain rfl := Option.some.inj hfound
  dsimp only at hshort
  omega

/-- The longest first part that is evaluated has the tree that was read. -/
theorem exists_report_of_course (h : Course .sum text.toList visits (some (d, rest))) :
    ∃ part, Report.of (firstPart text (text.length - rest.length)) = .returned part ∧ part.tree = some d.tree := by
  obtain ⟨part, hpart, hreads⟩ := Report.exists_reads (firstPart text (text.length - rest.length))
  exact ⟨part, hpart, (hreads.of_laidOut (laidOut_firstPart_of_course h)).2⟩

end

/-- Reading stops at the longest first part of the text that is evaluated by itself, with the tree
of this part, and fails only if there is none. -/
theorem report_of_longest_evaluated_part (text : String) : ∃ report, Report.of text = .returned report ∧
    (report.outcome = .failed ↔ ∀ length ≤ text.length, ¬Evaluated (firstPart text length)) ∧
    ∀ length, IsGreatest {length | length ≤ text.length ∧ Evaluated (firstPart text length)} length →
      ∃ part tree, Report.of (firstPart text length) = .returned part ∧ part.tree = some tree ∧
        report.tree = some tree ∧ (length = text.length → report.outcome = .evaluated) ∧
        (length < text.length → report.outcome = .incomplete ∧ report.stop = some (length : Int)) := by
  obtain ⟨report, hreport, hreads⟩ := Report.exists_reads text
  refine ⟨report, hreport, ?_⟩
  cases hreads with
  | @failed visits hcourse =>
    have hnone : ∀ length ≤ text.length, ¬Evaluated (firstPart text length) := by
      intro length _ hevaluated
      obtain ⟨_, hfound, -⟩ := exists_found_of_evaluated hcourse hevaluated
      exact absurd hfound nofun
    refine ⟨iff_of_true rfl hnone, ?_⟩
    intro length hgreatest
    exact absurd hgreatest.1.2 (hnone length hgreatest.1.1)
  | @evaluated visits d value hcourse hvalue =>
    have hwhole := isGreatest_of_course hcourse
    obtain ⟨part, hpart, htree⟩ := exists_report_of_course hcourse
    refine ⟨iff_of_false nofun fun hnone => hnone _ hwhole.1.1 hwhole.1.2, ?_⟩
    intro length hgreatest
    obtain rfl := hgreatest.unique hwhole
    exact ⟨part, d.tree, hpart, htree, rfl, fun _ => rfl, fun hless => absurd hless (by simp)⟩
  | @incomplete visits d rest hcourse hrest =>
    have hpart := isGreatest_of_course hcourse
    obtain ⟨part, hreport, htree⟩ := exists_report_of_course hcourse
    refine ⟨iff_of_false nofun fun hnone => hnone _ hpart.1.1 hpart.1.2, ?_⟩
    intro length hgreatest
    obtain rfl := hgreatest.unique hpart
    have hshorter : text.length - rest.length ≠ text.length := by
      have hpositive := List.length_pos_iff.mpr hrest
      have hlength := (hcourse.rest_suffix _ rfl).length_le
      rw [String.length_toList] at hlength
      dsimp only at hlength
      omega
    exact ⟨part, d.tree, hreport, htree, rfl, fun heq => absurd heq hshorter, fun _ => ⟨rfl, rfl⟩⟩

end Reckoner
