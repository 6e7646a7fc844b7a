import Mathlib
import Reckoner.CommandLine.Request
import Reckoner.Proofs.CommandLine.Flags

/-!
# What is gathered from the arguments

No argument can be lost when the expressions are gathered, because whatever is not gathered and is no
verbose flag either is kept as unrecognized, and then the command line is refused. So the expressions
that are evaluated are the arguments without the mark and the verbose flags before it.

Arguments are gathered one at a time, and what becomes of those still to come depends on how far the
run of expressions has come. `Run.Admits` says of them that the run is the only one, which makes the
gathering one induction over the arguments.
-/

namespace Reckoner

/-! ### The parts of a command line -/

/-- The arguments before the mark, or all of them if there is none. -/
def beforeMark (arguments : List String) : List String :=
  arguments.takeWhile (· != "--")

def afterMark (arguments : List String) : List String :=
  (arguments.dropWhile (· != "--")).tail

/-- The arguments without the mark and without the verbose flags before it. -/
def withoutFlags (release : Release) (arguments : List String) : List String :=
  (beforeMark arguments).filter (fun argument => !isVerboseFlag release argument.toList) ++ afterMark arguments

def hasVerboseFlag (release : Release) (arguments : List String) : Bool :=
  (beforeMark arguments).any fun argument => isVerboseFlag release argument.toList

namespace Argument

/-- The texts of the arguments that are neither the mark nor verbose flags. -/
def kept (arguments : List Argument) : List String :=
  (arguments.filter fun argument => !argument.role.isVerbose && argument.role ≠ .mark).map text

def anyVerbose (arguments : List Argument) : Bool :=
  arguments.any fun argument => argument.role.isVerbose

/-- The mark parts the arguments that have a role by their text from those that are all expressions. -/
theorem classify_eq (release : Release) (texts : List String) :
    classify release texts = ((beforeMark texts).map fun text => ⟨text, .of release text.toList⟩) ++
      match texts.dropWhile (· != "--") with
      | [] => []
      | mark :: after => ⟨mark, .mark⟩ :: after.map fun text => ⟨text, .expression⟩ := by
  induction texts with
  | nil => rfl
  | cons text texts ih =>
    by_cases hmark : text = "--"
    · simp [classify, beforeMark, hmark]
    · simp [classify, beforeMark, hmark, ih]

theorem kept_classify (release : Release) (texts : List String) :
    kept (classify release texts) = withoutFlags release texts := by
  have hbefore : kept ((beforeMark texts).map fun text => ⟨text, .of release text.toList⟩) =
      (beforeMark texts).filter fun text => !isVerboseFlag release text.toList := by
    simp [kept, List.filter_map, Function.comp_def, Role.isVerbose_of, Role.of_ne_mark]
  rw [classify_eq, kept, List.filter_append, List.map_append, ← kept, hbefore, withoutFlags, afterMark]
  congr 1
  cases texts.dropWhile (· != "--") with
  | nil => rfl
  | cons mark after => simp [List.filter_map, Function.comp_def]

theorem anyVerbose_classify (release : Release) (texts : List String) :
    anyVerbose (classify release texts) = hasVerboseFlag release texts := by
  rw [classify_eq, anyVerbose, List.any_append, hasVerboseFlag]
  cases texts.dropWhile (· != "--") with
  | nil => simp [Function.comp_def, Role.isVerbose_of]
  | cons mark after => simp [Function.comp_def, Role.isVerbose_of]

/-- What is unrecognized of an argument, if anything is: letters that are not understood, after a
hyphen, or all of it. -/
def unrecognized (argument : Argument) : String :=
  match argument.role with
  | .flagsBefore _ letters => String.ofList ('-' :: letters)
  | _ => argument.text

end Argument

namespace Request

/-! ### One run of expressions -/

namespace Run

def interrupted : Run → Run
  | .underway => .closed
  | run => run

/-- The arguments still to come carry on the only run of expressions, or begin it, and there is
nothing but verbose flags outside of it. -/
def Admits : Run → List Argument → Prop
  | _, [] => True
  | run, argument :: arguments =>
    (argument.role.isPositional = true ∧ run ≠ .closed ∧ Admits .underway arguments) ∨
      (argument.role.isVerbose = true ∧ Admits run.interrupted arguments)

section

variable (run : Run) (text : String) {role : Role} (arguments : List Argument)

theorem admits_cons_of_positional (h : role.isPositional = true) :
    run.Admits (⟨text, role⟩ :: arguments) ↔ run ≠ .closed ∧ Run.underway.Admits arguments := by
  have hverbose : role.isVerbose = false := Role.isVerbose_of_isPositional h
  simp [Admits, h, hverbose]

theorem admits_cons_of_verbose (h : role.isVerbose = true) :
    run.Admits (⟨text, role⟩ :: arguments) ↔ run.interrupted.Admits arguments := by
  have hpositional : role.isPositional = false := Role.isPositional_of_isVerbose h
  simp [Admits, h, hpositional]

end

end Run

theorem Gathered.interrupted_eq (g : Gathered) : g.interrupted = { g with run := g.run.interrupted } := by
  rcases g with ⟨_ | _ | _, _, _, _⟩ <;> rfl

/-- Something is evaluated just if the run of expressions is the only one and there is nothing but
verbose flags outside of it. Then it is what has been kept, and none of it is lost. -/
theorem gather_eq_evaluate_iff {g : Gathered} {arguments : List Argument} {expressions : List String} {verbose : Bool} :
    gather g arguments = .evaluate expressions verbose ↔
      g.unrecognized = [] ∧ g.run.Admits arguments ∧ g.expressions ++ Argument.kept arguments = expressions ∧
        (g.verbose || Argument.anyVerbose arguments) = verbose := by
  induction arguments generalizing g with
  | nil =>
    simp only [gather]
    split <;> simp_all [Run.Admits, Argument.kept, Argument.anyVerbose]
  | cons argument arguments ih =>
    rcases argument with ⟨text, role⟩
    cases role with
    | expression | mark =>
      rw [gather, ih, Run.admits_cons_of_positional g.run text arguments rfl]
      cases hrun : g.run <;> simp [Gathered.expression, hrun, Argument.kept, Argument.anyVerbose]
    | flags given =>
      by_cases hhelp : given.contains .help = true
      · have hverbose : (Role.flags given).isVerbose = false := by
          rw [Role.isVerbose, hhelp, Bool.not_true]
        rw [gather, if_pos hhelp]
        simp [Run.Admits, Role.isPositional, hverbose]
      · have hverbose : (Role.flags given).isVerbose = true := by
          rw [Role.isVerbose, Bool.eq_false_of_not_eq_true hhelp, Bool.not_false]
        rw [gather, if_neg hhelp, ih, Run.admits_cons_of_verbose g.run text arguments hverbose]
        simp [Gathered.interrupted_eq, hverbose, Argument.kept, Argument.anyVerbose]
    | flagsBefore given letters =>
      rw [gather]
      split
      · simp [Run.Admits, Role.isPositional, Role.isVerbose]
      · rw [ih]
        simp [Gathered.notUnderstood, Run.Admits, Role.isPositional, Role.isVerbose]
    | valued | ambiguous => simp [gather, Run.Admits, Role.isPositional, Role.isVerbose]
    | unknown =>
      rw [gather, ih]
      simp [Gathered.notUnderstood, Run.Admits, Role.isPositional, Role.isVerbose]

/-- The expressions, with the mark if there is one, stand together, and every other argument is a
verbose flag. -/
def InOneRun (release : Release) (arguments : List String) : Prop :=
  ∃ lead run trail, Argument.classify release arguments = lead ++ run ++ trail ∧
    (∀ argument ∈ lead ++ trail, argument.role.isVerbose = true) ∧ ∀ argument ∈ run, argument.role.isPositional = true

namespace Run

section

variable {arguments positionals trail : List Argument}

theorem admits_of_isVerbose (run : Run) (h : ∀ argument ∈ arguments, argument.role.isVerbose = true) :
    run.Admits arguments := by
  induction arguments generalizing run with
  | nil => trivial
  | cons argument arguments ih =>
    obtain ⟨hargument, harguments⟩ := List.forall_mem_cons.mp h
    exact .inr ⟨hargument, ih run.interrupted harguments⟩

theorem isVerbose_of_admits (h : Run.closed.Admits arguments) :
    ∀ argument ∈ arguments, argument.role.isVerbose = true := by
  induction arguments with
  | nil => nofun
  | cons argument arguments ih =>
    obtain ⟨-, hclosed, -⟩ | ⟨hargument, harguments⟩ := h
    · exact absurd rfl hclosed
    · exact List.forall_mem_cons.mpr ⟨hargument, ih harguments⟩

theorem admits_positionals {run : Run} (hrun : run ≠ .closed)
    (hpositionals : ∀ argument ∈ positionals, argument.role.isPositional = true)
    (htrail : ∀ argument ∈ trail, argument.role.isVerbose = true) : run.Admits (positionals ++ trail) := by
  induction positionals generalizing run with
  | nil => exact admits_of_isVerbose run htrail
  | cons argument positionals ih =>
    obtain ⟨hargument, hpositionals⟩ := List.forall_mem_cons.mp hpositionals
    exact .inl ⟨hargument, hrun, ih nofun hpositionals⟩

theorem exists_of_admits_underway (h : Run.underway.Admits arguments) :
    ∃ positionals trail, arguments = positionals ++ trail ∧
      (∀ argument ∈ positionals, argument.role.isPositional = true) ∧
        ∀ argument ∈ trail, argument.role.isVerbose = true := by
  induction arguments with
  | nil => exact ⟨[], [], rfl, nofun, nofun⟩
  | cons argument arguments ih =>
    obtain ⟨hargument, -, harguments⟩ | ⟨hargument, harguments⟩ := h
    · obtain ⟨positionals, trail, rfl, hpositionals, htrail⟩ := ih harguments
      exact ⟨argument :: positionals, trail, rfl, List.forall_mem_cons.mpr ⟨hargument, hpositionals⟩, htrail⟩
    · have htrail : ∀ flag ∈ argument :: arguments, flag.role.isVerbose = true :=
        List.forall_mem_cons.mpr ⟨hargument, isVerbose_of_admits harguments⟩
      exact ⟨[], argument :: arguments, rfl, nofun, htrail⟩

theorem admits_awaited_iff : Run.awaited.Admits arguments ↔
    ∃ lead positionals trail, arguments = lead ++ positionals ++ trail ∧
      (∀ argument ∈ lead ++ trail, argument.role.isVerbose = true) ∧
        ∀ argument ∈ positionals, argument.role.isPositional = true := by
  constructor
  · intro h
    induction arguments with
    | nil => exact ⟨[], [], [], rfl, nofun, nofun⟩
    | cons argument arguments ih =>
      obtain ⟨hargument, -, harguments⟩ | ⟨hargument, harguments⟩ := h
      · obtain ⟨positionals, trail, rfl, hpositionals, htrail⟩ := exists_of_admits_underway harguments
        exact ⟨[], argument :: positionals, trail, rfl, htrail, List.forall_mem_cons.mpr ⟨hargument, hpositionals⟩⟩
      · obtain ⟨lead, positionals, trail, rfl, hflags, hpositionals⟩ := ih harguments
        exact ⟨argument :: lead, positionals, trail, rfl, List.forall_mem_cons.mpr ⟨hargument, hflags⟩, hpositionals⟩
  · rintro ⟨lead, positionals, trail, rfl, hflags, hpositionals⟩
    induction lead with
    | nil => exact admits_positionals nofun hpositionals hflags
    | cons argument lead ih =>
      obtain ⟨hargument, hflags⟩ := List.forall_mem_cons.mp hflags
      exact .inr ⟨hargument, ih hflags⟩

end

end Run

theorem InOneRun.ambiguity?_eq_none {release : Release} {arguments : List String} (h : InOneRun release arguments) :
    ambiguity? (Argument.classify release arguments) = none := by
  obtain ⟨lead, run, trail, hclassify, hflags, hrun⟩ := h
  rw [ambiguity?, List.findSome?_eq_none_iff]
  intro argument hargument
  have hrole : argument.role.isVerbose = true ∨ argument.role.isPositional = true := by
    rw [hclassify, List.append_assoc, List.mem_append, List.mem_append] at hargument
    obtain hlead | hpositional | htrail := hargument
    · exact .inl (hflags argument (List.mem_append_left trail hlead))
    · exact .inr (hrun argument hpositional)
    · exact .inl (hflags argument (List.mem_append_right lead htrail))
  split
  next candidates hcandidates =>
    rw [hcandidates] at hrole
    obtain hverbose | hpositional := hrole
    · exact absurd hverbose nofun
    · exact absurd hpositional nofun
  · rfl

/-- A command line has expressions evaluated just if they stand together, and then no argument is
lost and none is evaluated that is a flag. -/
theorem ofArguments_eq_evaluate_iff {release : Release} {arguments expressions : List String} {verbose : Bool} :
    ofArguments release arguments = .evaluate expressions verbose ↔ InOneRun release arguments ∧
      withoutFlags release arguments = expressions ∧ hasVerboseFlag release arguments = verbose := by
  have hgather : gather .start (Argument.classify release arguments) = .evaluate expressions verbose ↔
      InOneRun release arguments ∧ withoutFlags release arguments = expressions ∧
        hasVerboseFlag release arguments = verbose := by
    rw [gather_eq_evaluate_iff, Argument.kept_classify, Argument.anyVerbose_classify]
    simp [Gathered.start, Run.admits_awaited_iff, InOneRun]
  rw [ofArguments]
  split
  next error herror =>
    refine ⟨nofun, ?_⟩
    rintro ⟨hrun, -⟩
    rw [hrun.ambiguity?_eq_none] at herror
    exact absurd herror nofun
  · exact hgather

/-! ### What is refused and what asks for help -/

/-- The argument asks for the help text, maybe after other flags and before letters that are not
understood. -/
def AsksForHelp (argument : Argument) : Prop :=
  .help ∈ argument.role.given

theorem exists_asksForHelp_of_gather {g : Gathered} {arguments : List Argument} (h : gather g arguments = .help) :
    ∃ argument ∈ arguments, AsksForHelp argument := by
  induction arguments generalizing g with
  | nil =>
    rw [gather] at h
    split at h <;> exact absurd h nofun
  | cons argument arguments ih =>
    have hlater {g : Gathered} (h : gather g arguments = .help) :
        ∃ asking ∈ argument :: arguments, AsksForHelp asking := by
      obtain ⟨asking, hmem, hasks⟩ := ih h
      exact ⟨asking, List.mem_cons_of_mem argument hmem, hasks⟩
    rcases argument with ⟨text, role⟩
    cases role with
    | expression | mark | unknown => exact hlater h
    | valued | ambiguous => exact absurd h nofun
    | flags given | flagsBefore given =>
      by_cases hhelp : given.contains .help = true
      · exact ⟨_, List.mem_cons_self, List.contains_iff_mem.mp hhelp⟩
      · rw [gather, if_neg hhelp] at h
        exact hlater h

/-- The error is about some of these arguments. -/
inductive IsAbout (arguments : List Argument) : UsageError → Prop
  | ambiguous {text : String} {candidates : List Flag} (h : ⟨text, .ambiguous candidates⟩ ∈ arguments) :
    IsAbout arguments (.ambiguous text candidates)
  | valueGiven {text : String} {flag : Flag} {value : List Char} (h : ⟨text, .valued flag value⟩ ∈ arguments) :
    IsAbout arguments (.valueGiven flag value)
  | unrecognized {texts : List String} (h : texts.Sublist (arguments.map Argument.unrecognized)) (hne : texts ≠ []) :
    IsAbout arguments (.unrecognized texts)

theorem isAbout_of_gather {g : Gathered} {earlier arguments : List Argument} {error : UsageError}
    (hunrecognized : g.unrecognized.Sublist (earlier.map Argument.unrecognized))
    (h : gather g arguments = .refused error) :
    IsAbout (earlier ++ arguments) error := by
  induction arguments generalizing g earlier with
  | nil =>
    rw [gather] at h
    split at h
    · exact absurd h nofun
    next hne =>
      injection h with herror
      rw [← herror, List.append_nil]
      exact .unrecognized hunrecognized (mt List.isEmpty_iff.mpr hne)
  | cons argument arguments ih =>
    rcases argument with ⟨text, role⟩
    have hmem : ⟨text, role⟩ ∈ earlier ++ ⟨text, role⟩ :: arguments :=
      List.mem_append_right earlier List.mem_cons_self
    -- An argument is kept as unrecognized or not, and is one of the earlier ones from now on.
    have hlater {g' : Gathered} {more : List String} (hmore : more.Sublist [Argument.unrecognized ⟨text, role⟩])
        (hg : g'.unrecognized = g.unrecognized ++ more) (h : gather g' arguments = .refused error) :
        IsAbout (earlier ++ ⟨text, role⟩ :: arguments) error := by
      rw [List.append_cons]
      refine ih ?_ h
      rw [hg, List.map_append]
      exact hunrecognized.append hmore
    cases role with
    | expression | mark =>
      rw [gather] at h
      cases hrun : g.run with
      | closed => exact hlater (List.Sublist.refl _) (by simp [Gathered.expression, hrun, Argument.unrecognized]) h
      | awaited | underway =>
        exact hlater (List.nil_sublist _) (by simp [Gathered.expression, hrun]) h
    | flags given =>
      rw [gather] at h
      split at h
      · exact absurd h nofun
      · exact hlater (List.nil_sublist _) (by rw [Gathered.interrupted_eq, List.append_nil]) h
    | flagsBefore given letters =>
      rw [gather] at h
      split at h
      · exact absurd h nofun
      · exact hlater (List.Sublist.refl _) rfl h
    | valued flag value =>
      injection h with herror
      exact herror ▸ .valueGiven hmem
    | ambiguous candidates =>
      injection h with herror
      exact herror ▸ .ambiguous hmem
    | unknown => exact hlater (List.Sublist.refl _) rfl h

theorem isAbout_of_ofArguments {release : Release} {arguments : List String} {error : UsageError}
    (h : ofArguments release arguments = .refused error) : IsAbout (Argument.classify release arguments) error := by
  rw [ofArguments] at h
  split at h
  next found hfound =>
    injection h with herror
    obtain ⟨⟨text, role⟩, hmem, hargument⟩ := List.exists_of_findSome?_eq_some hfound
    cases role with
    | ambiguous candidates =>
      injection hargument with hambiguous
      rw [← herror, ← hambiguous]
      exact .ambiguous hmem
    | expression | mark | flags | flagsBefore | valued | unknown => exact absurd hargument nofun
  · have hstart : Gathered.start.unrecognized.Sublist (([] : List Argument).map Argument.unrecognized) := .slnil
    exact isAbout_of_gather hstart h

theorem exists_asksForHelp_of_ofArguments {release : Release} {arguments : List String}
    (h : ofArguments release arguments = .help) :
    ∃ argument ∈ Argument.classify release arguments, AsksForHelp argument := by
  rw [ofArguments] at h
  split at h
  · exact absurd h nofun
  · exact exists_asksForHelp_of_gather h

end Request

end Reckoner
