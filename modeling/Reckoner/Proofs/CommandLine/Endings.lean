import Mathlib
import Reckoner.Proofs.CommandLine.Answers
import Reckoner.Proofs.CommandLine.Gathering

/-!
# The endings of a command line

A command line is refused, or answered with the help text, or has expressions evaluated. The three
can be told apart by the answer: only a refusal has the status two, and nothing that is put out about
an evaluated expression begins like the help text.
-/

namespace Reckoner

/-! ### Answers are told from the help text -/

theorem head?_unlines_ne {lines : List String} {c : Char} (hc : c ≠ '\n')
    (h : ∀ line ∈ lines, line.toList.head? ≠ some c) : (unlines lines).toList.head? ≠ some c := by
  cases lines with
  | nil => nofun
  | cons line lines =>
    have hcons : unlines (line :: lines) = line ++ "\n" ++ unlines lines := String.join_cons
    have hline : line.toList.head? ≠ some c := h line List.mem_cons_self
    rw [hcons, String.toList_append, String.toList_append]
    cases htext : line.toList with
    | nil => simpa using hc.symm
    | cons first rest => simpa [htext] using hline

theorem Report.head?_ne_of_mem_successLines {report : Report} (hevaluated : report.outcome = .evaluated)
    {verbose : Bool} {line : String} (h : line ∈ report.successLines verbose) : line.toList.head? ≠ some 'u' := by
  rw [successLines, List.mem_append] at h
  obtain hgrouping | hmessage := h
  · have hline : line ∈ report.grouping " --> " := by
      cases verbose with
      | false => exact absurd hgrouping List.not_mem_nil
      | true => exact hgrouping
    rw [grouping, Option.mem_toList] at hline
    obtain ⟨tree, -, rfl⟩ := Option.map_eq_some_iff.mp hline
    simp
  · rw [List.mem_singleton] at hmessage
    simp [hmessage, message, hevaluated]

/-- What the evaluated expressions put on standard output cannot be taken for the help text. -/
theorem Response.stdout_answering_ne_help (verbose : Bool) (reports : List Report) :
    (answering verbose reports).stdout ≠ help := by
  have husage : usage.toList.head? = some 'u' := by simp [usage]
  have hhelp : help.toList.head? = some 'u' := by
    simp only [help, String.toList_append, List.head?_append, husage, Option.some_or]
  have hlines : (answering verbose reports).stdout.toList.head? ≠ some 'u' := by
    refine head?_unlines_ne (by decide) fun line hline => ?_
    obtain ⟨report, hreport, hmem⟩ := List.mem_flatMap.mp hline
    have hevaluated : report.outcome = .evaluated := of_decide_eq_true (List.mem_filter.mp hreport).2
    exact Report.head?_ne_of_mem_successLines hevaluated hmem
  intro h
  rw [h, hhelp] at hlines
  exact hlines rfl

theorem Response.status_answering_le (verbose : Bool) (reports : List Report) :
    (answering verbose reports).status ≤ 1 := by
  have hstatus : (answering verbose reports).status =
      if reports.all fun report => report.outcome = .evaluated then 0 else 1 := rfl
  rw [hstatus]
  split <;> omega

/-! ### Three endings -/

section

variable (release : Release) (arguments : List String) (stdin : String)

/-- Nothing is evaluated for this command line, and nothing read of standard input. -/
structure EvaluatesNothing : Prop where
  expressions : (Request.ofArguments release arguments).expressionsToEvaluate stdin = []
  unread : (Request.ofArguments release arguments).unread stdin = stdin

/-- The command line is refused for some of its arguments. -/
structure IsRefused : Prop extends EvaluatesNothing release arguments stdin where
  response : ∃ error, Request.IsAbout (Argument.classify release arguments) error ∧
    respondBy release arguments stdin =
      .returned ⟨"", Response.usage ++ "py -m monadparse: error: " ++ error.message ++ "\n", 2⟩

/-- The command line is answered with the help text, which one of its arguments asks for. -/
structure IsHelped : Prop extends EvaluatesNothing release arguments stdin where
  asked : ∃ argument ∈ Argument.classify release arguments, Request.AsksForHelp argument
  response : respondBy release arguments stdin = .returned ⟨Response.help, "", 0⟩

/-- The command line has its arguments evaluated, without the mark and the verbose flags before it, or
the expressions of a session if nothing else is left of them. The response is made up of the reports
on these expressions. -/
structure IsEvaluated : Prop where
  expressions : (Request.ofArguments release arguments).expressionsToEvaluate stdin =
    suppliedExpressions (withoutFlags release arguments) stdin
  unread : (Request.ofArguments release arguments).unread stdin =
    if withoutFlags release arguments = [] then (Session.ofString stdin).unread else stdin
  response : ∃ reports,
    List.Forall₂ (fun text report => Report.of text = .returned report)
      (suppliedExpressions (withoutFlags release arguments) stdin) reports ∧
    respondBy release arguments stdin = .returned (.answering (hasVerboseFlag release arguments) reports)

end

section

variable {release : Release} {arguments : List String} {stdin : String}

theorem evaluatesNothing_of_ne
    (h : ∀ expressions verbose, Request.ofArguments release arguments ≠ .evaluate expressions verbose) :
    EvaluatesNothing release arguments stdin := by
  cases hrequest : Request.ofArguments release arguments with
  | help | refused =>
    constructor
    · rw [hrequest]
      rfl
    · rw [hrequest]
      rfl
  | evaluate expressions verbose => exact absurd hrequest (h expressions verbose)

theorem isRefused_of_eq {error : UsageError} (h : Request.ofArguments release arguments = .refused error) :
    IsRefused release arguments stdin := by
  have hnothing : EvaluatesNothing release arguments stdin := evaluatesNothing_of_ne (by simp [h])
  refine ⟨hnothing, error, Request.isAbout_of_ofArguments h, ?_⟩
  rw [respondBy, h]
  rfl

theorem isHelped_of_eq (h : Request.ofArguments release arguments = .help) : IsHelped release arguments stdin := by
  have hnothing : EvaluatesNothing release arguments stdin := evaluatesNothing_of_ne (by simp [h])
  refine ⟨hnothing, Request.exists_asksForHelp_of_ofArguments h, ?_⟩
  rw [respondBy, h]
  rfl

theorem isEvaluated_of_inOneRun (h : Request.InOneRun release arguments) : IsEvaluated release arguments stdin := by
  have hrequest : Request.ofArguments release arguments =
      .evaluate (withoutFlags release arguments) (hasVerboseFlag release arguments) :=
    Request.ofArguments_eq_evaluate_iff.mpr ⟨h, rfl, rfl⟩
  refine ⟨?_, ?_, ?_⟩
  · rw [hrequest, Request.expressionsToEvaluate_evaluate]
  · rw [hrequest]
    cases withoutFlags release arguments <;> rfl
  · obtain ⟨reports, hreports⟩ := Report.exists_forall₂_isOn (suppliedExpressions (withoutFlags release arguments) stdin)
    refine ⟨reports, hreports.imp fun _ _ h => h.of_eq, ?_⟩
    rw [respondBy, hrequest]
    exact Response.answers_answering hreports _ _ _ rfl

theorem not_isRefused_and_isHelped : ¬(IsRefused release arguments stdin ∧ IsHelped release arguments stdin) := by
  rintro ⟨hrefused, hhelped⟩
  obtain ⟨error, -, hresponse⟩ := hrefused.response
  rw [hhelped.response] at hresponse
  injection hresponse with hresponse
  injection hresponse with _ _ hstatus
  exact absurd hstatus (by decide)

theorem not_isRefused_and_isEvaluated :
    ¬(IsRefused release arguments stdin ∧ IsEvaluated release arguments stdin) := by
  rintro ⟨hrefused, hevaluated⟩
  obtain ⟨error, -, hresponse⟩ := hrefused.response
  obtain ⟨reports, -, hreports⟩ := hevaluated.response
  rw [hreports] at hresponse
  injection hresponse with hresponse
  have hstatus : (Response.answering (hasVerboseFlag release arguments) reports).status = 2 :=
    congrArg Response.status hresponse
  have hle := Response.status_answering_le (hasVerboseFlag release arguments) reports
  omega

theorem not_isHelped_and_isEvaluated : ¬(IsHelped release arguments stdin ∧ IsEvaluated release arguments stdin) := by
  rintro ⟨hhelped, hevaluated⟩
  obtain ⟨reports, -, hreports⟩ := hevaluated.response
  rw [hhelped.response] at hreports
  injection hreports with hreports
  exact Response.stdout_answering_ne_help (hasVerboseFlag release arguments) reports
    (congrArg Response.stdout hreports).symm

end

/-- A command line comes to one of three endings and never to two of them, by the rules of either
release. It has expressions evaluated just if these stand together and all its other arguments are
verbose flags. -/
theorem no_argument_is_lost (release : Release) (arguments : List String) (stdin : String) :
    (IsRefused release arguments stdin ∨ IsHelped release arguments stdin ∨ IsEvaluated release arguments stdin) ∧
      ¬(IsRefused release arguments stdin ∧ IsHelped release arguments stdin) ∧
      ¬(IsRefused release arguments stdin ∧ IsEvaluated release arguments stdin) ∧
      ¬(IsHelped release arguments stdin ∧ IsEvaluated release arguments stdin) ∧
      (IsEvaluated release arguments stdin ↔ Request.InOneRun release arguments) := by
  refine ⟨?_, not_isRefused_and_isHelped, not_isRefused_and_isEvaluated, not_isHelped_and_isEvaluated, ?_,
    isEvaluated_of_inOneRun⟩
  · cases hrequest : Request.ofArguments release arguments with
    | refused error => exact .inl (isRefused_of_eq hrequest)
    | help => exact .inr (.inl (isHelped_of_eq hrequest))
    | evaluate expressions verbose =>
      exact .inr (.inr (isEvaluated_of_inOneRun (Request.ofArguments_eq_evaluate_iff.mp hrequest).1))
  · intro hevaluated
    cases hrequest : Request.ofArguments release arguments with
    | refused error => exact absurd ⟨isRefused_of_eq hrequest, hevaluated⟩ not_isRefused_and_isEvaluated
    | help => exact absurd ⟨isHelped_of_eq hrequest, hevaluated⟩ not_isHelped_and_isEvaluated
    | evaluate expressions verbose => exact (Request.ofArguments_eq_evaluate_iff.mp hrequest).1

end Reckoner
