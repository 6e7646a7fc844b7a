import Mathlib
import Reckoner.Proofs.Grammar.Visits
import Reckoner.Proofs.Report.Reading

/-!
# Reports and values

A text is reported on, or it is asked for its value, and both say the same: a value where the report
has one, and otherwise an error that carries what the report says. What the report can say is more
than its outcome. A match has read something, so reading never stops at the beginning; it has passed
over the spaces after it, so it never stops before a space; and it has built nothing but sums and
products, so evaluating its tree never fails.
-/

namespace Reckoner

open Grammar

/-! ### Trees of sums and products -/

/-- There is no operator in the expression but `+` and `*`. -/
def Expr.SumsAndProducts : Expr → Prop
  | number _ => True
  | node op left right => (op = .plus ∨ op = .times) ∧ left.SumsAndProducts ∧ right.SumsAndProducts

theorem op_of_chain {rule : Rule} {k : Chain} (h : rule.chain? = some k) : k.op = .plus ∨ k.op = .times := by
  cases rule <;> cases h <;> decide

theorem Derivation.sumsAndProducts_tree {rule : Rule} (d : Derivation rule) : d.tree.SumsAndProducts := by
  induction d with
  | number l => exact trivial
  | bare inner ih | enclosed inner ih | alone _ inner ih => exact ih
  | chained hchain left right ihleft ihright => exact ⟨op_of_chain hchain, ihleft, ihright⟩

/-! ### Where reading stops -/

/-- A match has passed over the spaces after it. -/
theorem Grammar.Course.afterSpaces_rest {rule : Rule} {text : List Char} {visits : List Visit}
    {result : Option (Derivation rule × List Char)} (h : Course rule text visits result) :
    ∀ found ∈ result, afterSpaces found.2 = found.2 := by
  induction h with
  | number h =>
    subst h
    intro found hfound
    obtain ⟨⟨l, rest⟩, hread, rfl⟩ := Option.map_eq_some_iff.mp hfound
    obtain ⟨after, -, rfl⟩ := readNumber?_eq_some_iff.mp hread
    exact afterSpaces_afterSpaces after
  | bare _ _ ih =>
    intro found hfound
    obtain ⟨inner, hinner, rfl⟩ := Option.map_eq_some_iff.mp hfound
    exact ih inner hinner
  | enclosed _ _ hclose =>
    rintro found ⟨⟩
    obtain ⟨after, -, rfl⟩ := afterSign?_eq_some_iff.mp hclose
    exact afterSpaces_afterSpaces after
  | unclosed | missing => simp
  | alone _ _ _ ih | retracted _ _ _ _ ih =>
    rintro found ⟨⟩
    exact ih _ rfl
  | chained hchain hoperand hsign hrhs ih ihmore =>
    rintro found ⟨⟩
    have hright := ihmore _ rfl
    exact hright

/-- The text from a place in it on. -/
theorem leftover_natCast (text : String) (position : Nat) :
    leftover text position = String.ofList (text.toList.drop position) := by
  have hposition : ((Cursor.ofString text).advance position).position = position := by
    simp [Cursor.position, Cursor.ofString]
  rw [leftover, Cursor.rest, hposition, Int.toNat_natCast, Cursor.text_advance]
  rfl

theorem firstPart_append_leftover (text : String) (position : Nat) :
    firstPart text position ++ leftover text position = text := by
  rw [leftover_natCast, firstPart, ← String.ofList_append, List.take_append_drop, String.ofList_toList]

/-! ### The three ways to report -/

/-- Nothing was found, and the error says so about the same text. -/
structure ReportsFailure (text : String) (report : Report) : Prop where
  tree_eq : report.tree = none
  value_eq : report.value = none
  stop_eq : report.stop = none
  answer : evaluateText text = .returned (.error (.parsingFailed text))

/-- A tree was found in a first part of the text. Reading stopped inside the text, before something
that is not a space, and the error says where. -/
structure ReportsStop (text : String) (report : Report) (tree : Expr) (stop : Nat) : Prop where
  tree_eq : report.tree = some tree
  value_eq : report.value = none
  stop_eq : report.stop = some (stop : Int)
  operators : tree.SumsAndProducts
  stop_pos : 0 < stop
  stop_lt : stop < text.length
  not_space : text.toList[stop]? ≠ some ' '
  answer : evaluateText text = .returned (.error (.incompleteParse text stop))
  leftover_ne : leftover text stop ≠ ""
  append_leftover : firstPart text stop ++ leftover text stop = text

/-- A tree was found that takes up the whole text, and the value of the text is the value of the
tree. -/
structure ReportsValue (text : String) (report : Report) (tree : Expr) (value : Double) : Prop where
  tree_eq : report.tree = some tree
  value_eq : report.value = some value
  stop_eq : report.stop = none
  operators : tree.SumsAndProducts
  evaluate_eq : tree.evaluate = .ok value
  answer : evaluateText text = .returned (.ok value)

section

variable {text : String} {visits : List Visit} {d : Derivation .sum} {rest : List Char}

theorem reportsFailure (hreport : Report.of text = .returned ⟨text, .failed, none, none, none⟩) :
    ReportsFailure text ⟨text, .failed, none, none, none⟩ where
  tree_eq := rfl
  value_eq := rfl
  stop_eq := rfl
  answer := by
    rw [evaluateText, hreport]
    rfl

theorem reportsStop (h : Course .sum text.toList visits (some (d, rest))) (hrest : rest ≠ [])
    (hreport : Report.of text =
      .returned ⟨text, .incomplete, some d.tree, none, some (text.length - rest.length : Nat)⟩) :
    ReportsStop text ⟨text, .incomplete, some d.tree, none, some (text.length - rest.length : Nat)⟩ d.tree
      (text.length - rest.length) := by
  have hlength : rest.length < text.length := by
    rw [← String.length_toList]
    exact h.rest_length_lt _ rfl
  have hpositive := List.length_pos_iff.mpr hrest
  have hdrop : rest = text.toList.drop (text.length - rest.length) := by
    rw [← String.length_toList]
    exact List.suffix_iff_eq_drop.mp (h.rest_suffix _ rfl)
  refine ⟨rfl, rfl, rfl, d.sumsAndProducts_tree, by omega, by omega, ?_, ?_, ?_, firstPart_append_leftover text _⟩
  · have hspaces : afterSpaces rest = rest := h.afterSpaces_rest _ rfl
    rw [← List.head?_drop, ← hdrop, ← hspaces]
    exact head?_afterSpaces_ne_space rest
  · rw [evaluateText, hreport]
    rfl
  · rw [leftover_natCast, ← hdrop]
    intro hempty
    have hnil := String.toList_eq_nil_iff.mpr hempty
    rw [String.toList_ofList] at hnil
    exact hrest hnil

theorem reportsValue {value : Double} (hvalue : d.tree.evaluate = .ok value)
    (hreport : Report.of text = .returned ⟨text, .evaluated, some d.tree, some value, none⟩) :
    ReportsValue text ⟨text, .evaluated, some d.tree, some value, none⟩ d.tree value where
  tree_eq := rfl
  value_eq := rfl
  stop_eq := rfl
  operators := d.sumsAndProducts_tree
  evaluate_eq := hvalue
  answer := by
    rw [evaluateText, hreport]
    rfl

end

/-- Every text is reported on in exactly one of three ways, the one that the outcome names, and
asking for its value gives what the report says. -/
theorem report_accords_with_value (text : String) : ∃ report, Report.of text = .returned report ∧
    report.text = text ∧
    (report.outcome = .failed ↔ ReportsFailure text report) ∧
    (report.outcome = .incomplete ↔ ∃ tree stop, ReportsStop text report tree stop) ∧
    (report.outcome = .evaluated ↔ ∃ tree value, ReportsValue text report tree value) := by
  obtain ⟨report, hreport, hreads⟩ := Report.exists_reads text
  refine ⟨report, hreport, ?_⟩
  cases hreads with
  | failed =>
    refine ⟨rfl, iff_of_true rfl (reportsFailure hreport), iff_of_false nofun ?_, iff_of_false nofun ?_⟩
    · rintro ⟨_, _, h⟩
      exact absurd h.tree_eq nofun
    · rintro ⟨_, _, h⟩
      exact absurd h.tree_eq nofun
  | evaluated hcourse hvalue =>
    have hfound := reportsValue hvalue hreport
    refine ⟨rfl, iff_of_false nofun ?_, iff_of_false nofun ?_, iff_of_true rfl ⟨_, _, hfound⟩⟩
    · exact fun h => absurd h.tree_eq nofun
    · rintro ⟨_, _, h⟩
      exact absurd h.value_eq nofun
  | incomplete hcourse hrest =>
    have hstop := reportsStop hcourse hrest hreport
    refine ⟨rfl, iff_of_false nofun ?_, iff_of_true rfl ⟨_, _, hstop⟩, iff_of_false nofun ?_⟩
    · exact fun h => absurd h.tree_eq nofun
    · rintro ⟨_, _, h⟩
      exact absurd h.value_eq nofun

end Reckoner
