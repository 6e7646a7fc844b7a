import Mathlib
import Reckoner.CommandLine.Response
import Reckoner.Proofs.Double.Characters
import Reckoner.Proofs.Report.Printing

/-!
# Answers to expressions

Every expression is reported on, whatever became of those before it, and each report is put out in
whole lines on one of the two streams: a success on standard output, anything else on standard
error. So the answer to several expressions is the answer to each of them, put together stream by
stream, and the status tells whether all of them were successes.

The lines can be counted by their line feeds, because none has a line feed inside it. Only a success
repeats the text of its expression, and such a text has been laid out with tokens and spaces.
-/

namespace Reckoner

/-! ### Lines -/

/-- Lines as they are put out, each with its line feed. -/
def unlines (lines : List String) : String :=
  String.join (lines.map (· ++ "\n"))

theorem unlines_append (lines more : List String) : unlines (lines ++ more) = unlines lines ++ unlines more := by
  rw [unlines, List.map_append, String.join_append]
  rfl

def lineFeeds (text : String) : Nat :=
  text.toList.count '\n'

theorem lineFeeds_append (text more : String) : lineFeeds (text ++ more) = lineFeeds text + lineFeeds more := by
  rw [lineFeeds, String.toList_append, List.count_append]
  rfl

theorem lineFeeds_eq_zero_iff {text : String} : lineFeeds text = 0 ↔ '\n' ∉ text.toList :=
  List.count_eq_zero

/-- Lines without a line feed of their own have one line feed each when they are put out. -/
theorem lineFeeds_unlines {lines : List String} (h : ∀ line ∈ lines, lineFeeds line = 0) :
    lineFeeds (unlines lines) = lines.length := by
  induction lines with
  | nil => rfl
  | cons line lines ih =>
    obtain ⟨hline, hlines⟩ := List.forall_mem_cons.mp h
    have hcons : unlines (line :: lines) = line ++ "\n" ++ unlines lines := String.join_cons
    have hfeed : lineFeeds "\n" = 1 := rfl
    rw [hcons, lineFeeds_append, lineFeeds_append, hline, hfeed, ih hlines, List.length_cons]
    omega

/-! ### What is put out about a report -/

namespace Report

/-- The report on the text, and that it goes by how the text is read. -/
structure IsOn (text : String) (report : Report) : Prop where
  of_eq : Report.of text = .returned report
  reads : Reads text report

theorem exists_isOn (text : String) : ∃ report, IsOn text report := by
  obtain ⟨report, hreport, hreads⟩ := exists_reads text
  exact ⟨report, hreport, hreads⟩

theorem exists_forall₂_isOn (texts : List String) : ∃ reports, List.Forall₂ IsOn texts reports := by
  induction texts with
  | nil => exact ⟨[], .nil⟩
  | cons text texts ih =>
    obtain ⟨report, hreport⟩ := exists_isOn text
    obtain ⟨reports, hreports⟩ := ih
    exact ⟨report :: reports, .cons hreport hreports⟩

/-- The line that shows how the expression was grouped, if there is a tree. -/
def grouping (lead : String) (report : Report) : List String :=
  (report.tree.map fun tree => lead ++ tree.render).toList

def successLines (verbose : Bool) (report : Report) : List String :=
  (if verbose then report.grouping " --> " else []) ++ [report.message]

def failureLines (verbose : Bool) (report : Report) : List String :=
  report.message :: if verbose ∧ report.outcome = .incomplete then report.grouping " -- matched only " else []

end Report

namespace Response

/-- The answer to expressions with these reports: the successes on standard output and the others on
standard error, each in order. -/
def answering (verbose : Bool) (reports : List Report) : Response where
  stdout := unlines ((reports.filter fun report => report.outcome = .evaluated).flatMap (Report.successLines verbose))
  stderr := unlines ((reports.filter fun report => report.outcome ≠ .evaluated).flatMap (Report.failureLines verbose))
  status := if reports.all fun report => report.outcome = .evaluated then 0 else 1

theorem append_eq (first second : Response) : first ++ second =
    ⟨first.stdout ++ second.stdout, first.stderr ++ second.stderr, max first.status second.status⟩ :=
  rfl

theorem answering_append (verbose : Bool) (reports others : List Report) :
    answering verbose (reports ++ others) = answering verbose reports ++ answering verbose others := by
  have hstatus (all also : Bool) : (if all && also then 0 else 1) = max (if all then 0 else 1) (if also then 0 else 1) := by
    cases all <;> cases also <;> rfl
  rw [append_eq, answering, List.filter_append, List.filter_append, List.flatMap_append, List.flatMap_append,
    unlines_append, unlines_append, List.all_append, hstatus]
  rfl

theorem ofReport_eq_answering {text : String} {report : Report} (h : Report.Reads text report) (verbose : Bool) :
    ofReport verbose report = answering verbose [report] := by
  cases h <;> cases verbose <;>
    simp [ofReport, answering, Report.successLines, Report.failureLines, Report.grouping, unlines]

/-- Nothing that becomes of an expression keeps the next one from being answered. -/
theorem ofExpressions_eq_answering {texts : List String} {reports : List Report}
    (h : List.Forall₂ Report.IsOn texts reports) (verbose : Bool) :
    ofExpressions verbose texts = .returned (answering verbose reports) := by
  induction h with
  | nil => rfl
  | @cons text report texts reports hreport _ ih =>
    rw [ofExpressions, hreport.of_eq, ih, Exit.returned_bind, Exit.returned_bind, ofReport_eq_answering hreport.reads]
    exact congrArg Exit.returned (answering_append verbose [report] reports).symm

end Response

/-! ### Lines have no line feed inside -/

/-- The characters that the text of an expression is made of. -/
def isExprChar (c : Char) : Bool :=
  isDoubleChar c || ['(', ')', ' ', '+', '-', '*', '/', '?'].contains c

theorem Expr.isExprChar_text (e : Expr) : ∀ c ∈ e.text, isExprChar c = true := by
  induction e with
  | number x =>
    rw [Expr.text_number]
    intro c hc
    rw [isExprChar, x.isDoubleChar_text c hc, Bool.true_or]
  | node op left right ihleft ihright =>
    have hsign : isExprChar op.sign = true := by cases op <;> rfl
    rw [Expr.text_node]
    refine List.forall_mem_cons.mpr ⟨rfl, List.forall_mem_append.mpr ⟨ihleft, ?_⟩⟩
    refine List.forall_mem_cons.mpr ⟨rfl, List.forall_mem_cons.mpr ⟨hsign, List.forall_mem_cons.mpr ⟨rfl, ?_⟩⟩⟩
    exact List.forall_mem_append.mpr ⟨ihright, List.forall_mem_singleton.mpr rfl⟩

theorem Expr.lineFeeds_render (e : Expr) : lineFeeds e.render = 0 := by
  rw [lineFeeds_eq_zero_iff, Expr.render, String.toList_ofList]
  exact fun hfeed => absurd (e.isExprChar_text _ hfeed) (by decide)

theorem Double.lineFeeds_render (x : Double) : lineFeeds x.render = 0 := by
  rw [lineFeeds_eq_zero_iff, Double.render, String.toList_ofList]
  exact fun hfeed => absurd (x.isDoubleChar_text _ hfeed) (by decide)

theorem LaidOut.lineFeeds {tokens : List Token} {text : String} (h : LaidOut tokens text.toList) :
    lineFeeds text = 0 := by
  rw [lineFeeds_eq_zero_iff]
  exact fun hfeed => absurd (h.isTokenChar _ hfeed) (by decide)

namespace Report

theorem lineFeeds_grouping {lead : String} (hlead : lineFeeds lead = 0) (report : Report) :
    ∀ line ∈ report.grouping lead, lineFeeds line = 0 := by
  intro line hline
  rw [grouping, Option.mem_toList] at hline
  obtain ⟨tree, -, rfl⟩ := Option.map_eq_some_iff.mp hline
  rw [lineFeeds_append, hlead, tree.lineFeeds_render]

theorem Reads.lineFeeds_message {text : String} {report : Report} (h : Reads text report) :
    lineFeeds report.message = 0 := by
  cases h with
  | failed =>
    have hmessage : lineFeeds "parsing failed" = 0 := rfl
    exact hmessage
  | incomplete =>
    have hmessage : lineFeeds "not all input consumed" = 0 := rfl
    exact hmessage
  | @evaluated visits d value hcourse hvalue =>
    obtain ⟨laid, htext, hlaid⟩ := hcourse.exists_laidOut _ rfl
    rw [List.append_nil] at htext
    have hechoed : lineFeeds text = 0 := LaidOut.lineFeeds (htext ▸ hlaid)
    have hlead : lineFeeds "expression " = 0 := rfl
    have hbetween : lineFeeds " was evaluated. Result is " = 0 := rfl
    simp [message, lineFeeds_append, hlead, hechoed, hbetween, value.lineFeeds_render]

theorem Reads.lineFeeds_successLines {text : String} {report : Report} (h : Reads text report) (verbose : Bool) :
    ∀ line ∈ report.successLines verbose, lineFeeds line = 0 := by
  refine List.forall_mem_append.mpr ⟨?_, List.forall_mem_singleton.mpr h.lineFeeds_message⟩
  split
  · exact lineFeeds_grouping rfl report
  · nofun

theorem Reads.lineFeeds_failureLines {text : String} {report : Report} (h : Reads text report) (verbose : Bool) :
    ∀ line ∈ report.failureLines verbose, lineFeeds line = 0 := by
  refine List.forall_mem_cons.mpr ⟨h.lineFeeds_message, ?_⟩
  split
  · exact lineFeeds_grouping rfl report
  · nofun

/-- A success is one line on standard output, or two with the grouping before it. -/
theorem Reads.answering_of_evaluated {text : String} {report : Report} (h : Reads text report)
    (hevaluated : report.outcome = .evaluated) (verbose : Bool) :
    lineFeeds (Response.answering verbose [report]).stdout = (if verbose then 2 else 1) ∧
      (Response.answering verbose [report]).stderr = "" := by
  have hout : (Response.answering verbose [report]).stdout = unlines (report.successLines verbose) := by
    simp [Response.answering, hevaluated]
  have herr : (Response.answering verbose [report]).stderr = "" := by
    simp [Response.answering, hevaluated, unlines]
  refine ⟨?_, herr⟩
  rw [hout, lineFeeds_unlines (h.lineFeeds_successLines verbose)]
  cases h with
  | failed | incomplete => exact absurd hevaluated nofun
  | evaluated => cases verbose <;> rfl

/-- Anything else is one line on standard error, or two with the grouping of what was read. -/
theorem Reads.answering_of_not_evaluated {text : String} {report : Report} (h : Reads text report)
    (hother : report.outcome ≠ .evaluated) (verbose : Bool) :
    (Response.answering verbose [report]).stdout = "" ∧ lineFeeds (Response.answering verbose [report]).stderr =
      if verbose ∧ report.outcome = .incomplete then 2 else 1 := by
  have hout : (Response.answering verbose [report]).stdout = "" := by
    simp [Response.answering, hother, unlines]
  have herr : (Response.answering verbose [report]).stderr = unlines (report.failureLines verbose) := by
    simp [Response.answering, hother]
  refine ⟨hout, ?_⟩
  rw [herr, lineFeeds_unlines (h.lineFeeds_failureLines verbose)]
  cases h with
  | evaluated => exact absurd rfl hother
  | failed | incomplete => cases verbose <;> rfl

end Report

/-! ### Where the expressions come from -/

/-- The expressions that are given as arguments, or those of a session if none are given. -/
def suppliedExpressions (given : List String) (stdin : String) : List String :=
  if given = [] then (Session.ofString stdin).expressions else given

theorem Request.expressionsToEvaluate_evaluate (given : List String) (verbose : Bool) (stdin : String) :
    (evaluate given verbose).expressionsToEvaluate stdin = suppliedExpressions given stdin := by
  cases given <;> rfl

/-- The response that the program gives to these expressions, wherever they come from. -/
def Response.Answers (response : Response) (verbose : Bool) (texts : List String) : Prop :=
  ∀ given stdin, suppliedExpressions given stdin = texts →
    ofRequest (.evaluate given verbose) stdin = .returned response

theorem Response.answers_answering {texts : List String} {reports : List Report}
    (h : List.Forall₂ Report.IsOn texts reports) (verbose : Bool) : (answering verbose reports).Answers verbose texts := by
  rintro given stdin rfl
  rw [ofRequest, Request.expressionsToEvaluate_evaluate, ofExpressions_eq_answering h]

/-- The expressions, given as arguments or line by line, are answered one by one whatever becomes of
them. The answers on two lists are put together to the answer on both, and each expression has its
lines on one of the two streams. -/
theorem every_expression_is_answered (verbose : Bool) :
    (∀ given stdin, ∃ reports,
      List.Forall₂ (fun text report => Report.of text = .returned report) (suppliedExpressions given stdin) reports ∧
      Response.ofRequest (.evaluate given verbose) stdin = .returned (.answering verbose reports)) ∧
    (∀ texts others, ∃ first second both : Response,
      first.Answers verbose texts ∧ second.Answers verbose others ∧ both.Answers verbose (texts ++ others) ∧
      both.stdout = first.stdout ++ second.stdout ∧ both.stderr = first.stderr ++ second.stderr ∧
      (both.status = 0 ↔ first.status = 0 ∧ second.status = 0)) ∧
    ∀ text, ∃ (report : Report) (response : Response), Report.of text = .returned report ∧
      response.Answers verbose [text] ∧
      if report.outcome = .evaluated then
        (∃ value : Double, report.message = "expression " ++ text ++ " was evaluated. Result is " ++ value.render) ∧
        lineFeeds response.stdout = (if verbose then 2 else 1) ∧ response.stderr = ""
      else
        response.stdout = "" ∧ lineFeeds response.stderr = if verbose ∧ report.outcome = .incomplete then 2 else 1 := by
  refine ⟨?_, ?_, ?_⟩
  · intro given stdin
    obtain ⟨reports, hreports⟩ := Report.exists_forall₂_isOn (suppliedExpressions given stdin)
    exact ⟨reports, hreports.imp fun _ _ h => h.of_eq, Response.answers_answering hreports verbose given stdin rfl⟩
  · intro texts others
    obtain ⟨reports, hreports⟩ := Report.exists_forall₂_isOn texts
    obtain ⟨otherReports, hothers⟩ := Report.exists_forall₂_isOn others
    have hboth := Response.answers_answering (List.rel_append hreports hothers) verbose
    rw [Response.answering_append] at hboth
    refine ⟨_, _, _, Response.answers_answering hreports verbose, Response.answers_answering hothers verbose, hboth,
      rfl, rfl, ?_⟩
    rw [Response.append_eq, Nat.max_eq_zero_iff]
  · intro text
    obtain ⟨report, hreport⟩ := Report.exists_isOn text
    refine ⟨report, _, hreport.of_eq, Response.answers_answering (.cons hreport .nil) verbose, ?_⟩
    by_cases hevaluated : report.outcome = .evaluated
    · rw [if_pos hevaluated]
      refine ⟨?_, hreport.reads.answering_of_evaluated hevaluated verbose⟩
      cases hreport.reads with
      | failed | incomplete => exact absurd hevaluated nofun
      | @evaluated _ _ value => exact ⟨value, rfl⟩
    · rw [if_neg hevaluated]
      exact hreport.reads.answering_of_not_evaluated hevaluated verbose

end Reckoner
