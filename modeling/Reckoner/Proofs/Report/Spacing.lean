import Mathlib
import Reckoner.Proofs.Grammar.Layouts
import Reckoner.Proofs.Report.Reading

/-!
# Reports do not depend on spaces

The same tokens with other numbers of spaces between them are read by the same courses, so they are
reported on alike. Only the place where an incomplete reading stops is an offset, and it is the
offset of the same token.
-/

namespace Reckoner

open Grammar

/-- The text of a layout, as it is given to be read. -/
def Layout.string {tokens : List Token} (layout : Layout tokens) : String :=
  String.ofList layout.text

theorem Layout.length_string {tokens : List Token} (layout : Layout tokens) :
    layout.string.length = layout.text.length := by
  rw [← String.length_toList, Layout.string, String.toList_ofList]

namespace Report

/-- The report on a layout: a sum that is found is reported on by the token that it stops at. -/
inductive ReadsUpTo {tokens : List Token} (layout : Layout tokens) : Option (Derivation .sum × Nat) → Report → Prop
  | failed : ReadsUpTo layout none ⟨layout.string, .failed, none, none, none⟩
  | evaluated {d stop value} (hstop : tokens.length ≤ stop) (hvalue : d.tree.evaluate = .ok value) :
    ReadsUpTo layout (some (d, stop)) ⟨layout.string, .evaluated, some d.tree, some value, none⟩
  | incomplete {d stop} (hstop : stop < tokens.length) :
    ReadsUpTo layout (some (d, stop)) ⟨layout.string, .incomplete, some d.tree, none, some (layout.start stop : Int)⟩

theorem Reads.readsUpTo {tokens : List Token} {layout : Layout tokens} {report : Report} {visits : List Visit}
    {stopped : Option (Derivation .sum × Nat)} (h : Reads layout.string report)
    (hcourse : Course .sum layout.text visits (stopped.map layout.found)) : ReadsUpTo layout stopped report := by
  have htext : layout.string.toList = layout.text := String.toList_ofList
  rw [← htext] at hcourse
  cases h with
  | failed hfailed =>
    obtain rfl := Option.map_eq_none_iff.mp (hcourse.result_unique hfailed)
    exact .failed
  | evaluated hread hvalue =>
    obtain ⟨stop, rfl, hrest⟩ := Layout.exists_of_found (hread.result_unique hcourse)
    exact .evaluated (layout.rest_eq_nil_iff.mp hrest.symm) hvalue
  | incomplete hread hrest =>
    obtain ⟨stop, rfl, rfl⟩ := Layout.exists_of_found (hread.result_unique hcourse)
    obtain ⟨hlt, hstart⟩ := layout.start_eq_of_rest_ne_nil hrest
    rw [layout.length_string, hstart]
    exact .incomplete hlt

end Report

/-- Two layouts of the same tokens are reported on alike, and an incomplete reading stops at the same
token. -/
theorem report_of_layouts (tokens : List Token) (first second : Layout tokens) :
    ∃ report other, Report.of first.string = .returned report ∧ Report.of second.string = .returned other ∧
      report.outcome = other.outcome ∧ report.tree = other.tree ∧ report.value = other.value ∧
      (report.outcome = .incomplete → ∃ index < tokens.length,
        report.stop = some (first.start index : Int) ∧ other.stop = some (second.start index : Int)) := by
  obtain ⟨report, hreport, hreads⟩ := Report.exists_reads first.string
  obtain ⟨other, hother, hreads'⟩ := Report.exists_reads second.string
  refine ⟨report, other, hreport, hother, ?_⟩
  obtain ⟨visits, result, hcourse, -⟩ := exists_course_of_run first.string
  rw [Layout.string, String.toList_ofList] at hcourse
  obtain ⟨stopped, rfl, hsecond⟩ := hcourse.exists_stopped first second first.rest_zero.symm
  obtain ⟨visits', hcourse'⟩ := hsecond second.text second.rest_zero.symm
  have hupTo' := hreads'.readsUpTo hcourse'
  cases hreads.readsUpTo hcourse with
  | failed =>
    cases hupTo'
    exact ⟨rfl, rfl, rfl, nofun⟩
  | evaluated hstop hvalue =>
    cases hupTo' with
    | evaluated _ hvalue' =>
      obtain rfl := Except.ok.inj (hvalue.symm.trans hvalue')
      exact ⟨rfl, rfl, rfl, nofun⟩
    | incomplete hless => omega
  | @incomplete d stop hstop =>
    cases hupTo' with
    | evaluated hend => omega
    | incomplete _ => exact ⟨rfl, rfl, rfl, fun _ => ⟨stop, hstop, rfl, rfl⟩⟩

end Reckoner
