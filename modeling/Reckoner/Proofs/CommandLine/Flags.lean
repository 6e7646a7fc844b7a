import Mathlib
import Reckoner.CommandLine.Arguments

/-!
# Verbose flags

Which arguments before the mark ask for more to be shown. They can be told from their text alone: a
beginning of the flag's word after two hyphens, or its letter after one hyphen, as many times as one
likes. Any other argument is an expression, or is not understood, or asks for the help text as well.
What a release takes differently only shows behind an equals sign.
-/

namespace Reckoner

/-- Whether an argument before the mark is one or more verbose flags and nothing else. In the earlier
release an equals sign may stand between the first letter and the next ones. -/
def isVerboseFlag (release : Release) (argument : List Char) : Bool :=
  match argument with
  | '-' :: '-' :: word => !word.isEmpty && word.isPrefixOf "verbose".toList
  | '-' :: 'v' :: '=' :: letters => release = .earlier && (!letters.isEmpty && letters.all (· == 'v'))
  | '-' :: letters => !letters.isEmpty && letters.all (· == 'v')
  | _ => false

namespace Role

/-- The role of flags none of which asks for the help text. -/
def isVerbose : Role → Bool
  | flags given => !given.contains .help
  | _ => false

/-- The flags that the argument stands for. -/
def given : Role → List Flag
  | flags given | flagsBefore given _ => given
  | expression | mark | valued _ _ | ambiguous _ | unknown => []

/-- The role of what is gathered in the run of expressions. -/
def isPositional : Role → Bool
  | expression | mark => true
  | _ => false

@[simp]
theorem isVerbose_expression : expression.isVerbose = false :=
  rfl

@[simp]
theorem isVerbose_mark : mark.isVerbose = false :=
  rfl

theorem isPositional_of_isVerbose {role : Role} (h : role.isVerbose = true) : role.isPositional = false := by
  cases role <;> first | rfl | exact absurd h nofun

theorem isVerbose_of_isPositional {role : Role} (h : role.isPositional = true) : role.isVerbose = false := by
  cases role <;> first | rfl | exact absurd h nofun

theorem withoutFlag_eq (afterHyphen : List Char) :
    withoutFlag afterHyphen = expression ∨ withoutFlag afterHyphen = unknown := by
  rw [withoutFlag]
  split
  · exact .inl rfl
  · exact .inr rfl

theorem isVerbose_withoutFlag (afterHyphen : List Char) : (withoutFlag afterHyphen).isVerbose = false := by
  obtain h | h := withoutFlag_eq afterHyphen <;> rw [h] <;> rfl

end Role

theorem Flag.ofLetter?_eq_some_iff {c : Char} {flag : Flag} : Flag.ofLetter? c = some flag ↔ c = flag.letter := by
  cases flag <;> simp only [Flag.ofLetter?, Flag.all, List.find?, Flag.letter] <;> grind

theorem Flag.ofLetter?_eq_none {c : Char} (h : Flag.ofLetter? c = none) : c ≠ 'v' := by
  rintro rfl
  exact absurd h nofun

namespace Role

theorem isVerbose_endingIn (release : Release) (given : List Flag) (last : Flag) (c : Char) (rest : List Char) :
    (endingIn release given last c rest).isVerbose = false := by
  fun_cases endingIn release given last c rest <;> rfl

theorem isVerbose_cluster (release : Release) (before : List Flag) (flag : Flag) (letters : List Char) :
    (cluster release before flag letters).isVerbose =
      (!(before ++ [flag]).contains .help && letters.all (· == 'v')) := by
  fun_induction cluster release before flag letters with
  | case1 before flag => rw [isVerbose, List.all_nil, Bool.and_true]
  | case2 before flag c rest hletter =>
    rw [isVerbose_endingIn, List.all_cons, beq_false_of_ne (Flag.ofLetter?_eq_none hletter), Bool.false_and,
      Bool.and_false]
  | case3 before flag c rest next hletter ih =>
    rw [ih, Flag.ofLetter?_eq_some_iff.mp hletter, List.all_cons]
    cases next <;> simp [Flag.letter]

theorem isVerbose_ofLetters (release : Release) (letters : List Char) (hsingle : letters.head? ≠ some '-') :
    (ofLetters release letters).isVerbose = isVerboseFlag release ('-' :: letters) := by
  fun_cases ofLetters release letters with
  | case1 => rfl
  | case2 _ c rest hletter =>
    have hhyphen : c ≠ '-' := fun h => hsingle (congrArg some h)
    simp [isVerbose_withoutFlag, isVerboseFlag, hhyphen, Flag.ofLetter?_eq_none hletter]
  | case3 c flag hletter =>
    rw [Flag.ofLetter?_eq_some_iff.mp hletter]
    cases flag <;> rfl
  | case4 c flag hletter letters hne =>
    rw [Flag.ofLetter?_eq_some_iff.mp hletter, isVerbose_cluster]
    cases flag with
    | help => rfl
    | verbose =>
      have hempty : letters.isEmpty = false := List.isEmpty_eq_false_iff.mpr hne
      simp [isVerboseFlag, Flag.letter, hempty]
  | case5 _ c flag hletter letters _ hvalue =>
    rw [Flag.ofLetter?_eq_some_iff.mp hletter, isVerbose_cluster]
    cases flag with
    | help => rfl
    | verbose =>
      cases letters with
      | nil => rfl
      | cons next rest =>
        by_cases hnext : next = '='
        · have hlater : release ≠ .earlier := fun h => hvalue rest h (congrArg (· :: rest) hnext)
          simp [isVerboseFlag, Flag.letter, hnext, hlater]
        · simp [isVerboseFlag, Flag.letter, hnext]

/-- No word but the empty one begins both flags' words. -/
theorem not_isPrefixOf_both (c : Char) (rest : List Char) :
    ¬((c :: rest).isPrefixOf "help".toList = true ∧ (c :: rest).isPrefixOf "verbose".toList = true) := by
  rintro ⟨hhelp, hverbose⟩
  have hh : c = 'h' := (List.cons_prefix_cons.mp (List.isPrefixOf_iff_prefix.mp hhelp)).1
  have hv : c = 'v' := (List.cons_prefix_cons.mp (List.isPrefixOf_iff_prefix.mp hverbose)).1
  exact absurd (hh.symm.trans hv) (by decide)

theorem isVerbose_ofWord_of_not_mem {c : Char} {rest : List Char} (hequals : '=' ∉ c :: rest) :
    (ofWord (c :: rest)).isVerbose = (c :: rest).isPrefixOf "verbose".toList := by
  have hnone : ∀ other ∈ c :: rest, (other != '=') = true :=
    fun other hother => bne_iff_ne.mpr (ne_of_mem_of_not_mem hother hequals)
  rw [ofWord, List.takeWhile_eq_self_iff.mpr hnone, List.dropWhile_eq_nil_iff.mpr hnone]
  simp only [Flag.all, Flag.word, List.filter]
  cases hhelp : (c :: rest).isPrefixOf "help".toList <;> cases hverbose : (c :: rest).isPrefixOf "verbose".toList
  · exact isVerbose_withoutFlag _
  · rfl
  · rfl
  · exact absurd ⟨hhelp, hverbose⟩ (not_isPrefixOf_both c rest)

theorem isVerbose_ofWord_of_mem {word : List Char} (hequals : '=' ∈ word) : (ofWord word).isVerbose = false := by
  have hdrop : word.dropWhile (· != '=') ≠ [] :=
    fun h => absurd (List.dropWhile_eq_nil_iff.mp h _ hequals) (by decide)
  rw [ofWord]
  split
  · exact isVerbose_withoutFlag _
  · split
    · contradiction
    · rfl
  · rfl

theorem isVerbose_ofWord (release : Release) (word : List Char) :
    (ofWord word).isVerbose = isVerboseFlag release ('-' :: '-' :: word) := by
  rw [isVerboseFlag]
  cases word with
  | nil => rfl
  | cons c rest =>
    rw [List.isEmpty_cons, Bool.not_false, Bool.true_and]
    by_cases hequals : '=' ∈ c :: rest
    · have hnot : (c :: rest).isPrefixOf "verbose".toList = false := by
        rw [← Bool.not_eq_true, List.isPrefixOf_iff_prefix]
        exact fun h => absurd (h.subset hequals) (by decide)
      rw [isVerbose_ofWord_of_mem hequals, hnot]
    · exact isVerbose_ofWord_of_not_mem hequals

/-- The verbose flags can be told from their text. -/
theorem isVerbose_of (release : Release) (argument : List Char) :
    (Role.of release argument).isVerbose = isVerboseFlag release argument := by
  fun_cases Role.of release argument with
  | case1 word => exact isVerbose_ofWord release word
  | case2 letters hword =>
    refine isVerbose_ofLetters release letters ?_
    intro hhead
    obtain ⟨word, rfl⟩ := List.head?_eq_some_iff.mp hhead
    exact hword word rfl
  | case3 other hword hletters =>
    unfold isVerboseFlag
    split
    · exact (hletters _ rfl).elim
    · exact (hletters _ rfl).elim
    · exact (hletters _ rfl).elim
    · rfl

example : ["-v", "-vvv", "--verbose", "--v"].all (fun flag => isVerboseFlag .later flag.toList) = true := by
  decide

example : isVerboseFlag .earlier "-v=vv".toList = true ∧ isVerboseFlag .later "-v=vv".toList = false := by
  decide

/-! ### The mark -/

theorem withoutFlag_ne_mark (afterHyphen : List Char) : withoutFlag afterHyphen ≠ mark := by
  obtain h | h := withoutFlag_eq afterHyphen <;> rw [h] <;> nofun

theorem endingIn_ne_mark (release : Release) (given : List Flag) (last : Flag) (c : Char) (rest : List Char) :
    endingIn release given last c rest ≠ mark := by
  fun_cases endingIn release given last c rest <;> nofun

theorem cluster_ne_mark (release : Release) (before : List Flag) (flag : Flag) (letters : List Char) :
    cluster release before flag letters ≠ mark := by
  fun_induction cluster release before flag letters with
  | case1 => nofun
  | case2 before flag c rest => exact endingIn_ne_mark release (before ++ [flag]) flag c rest
  | case3 before flag c rest next hletter ih => exact ih

theorem ofLetters_ne_mark (release : Release) (letters : List Char) : ofLetters release letters ≠ mark := by
  fun_cases ofLetters release letters with
  | case1 | case2 => exact withoutFlag_ne_mark _
  | case3 => nofun
  | case4 | case5 => exact cluster_ne_mark _ _ _ _

theorem ofWord_ne_mark (word : List Char) : ofWord word ≠ mark := by
  rw [ofWord]
  split
  · exact withoutFlag_ne_mark _
  · split <;> nofun
  · nofun

/-- The mark is not told by its text alone, since only the first `--` is one. -/
theorem of_ne_mark (release : Release) (argument : List Char) : Role.of release argument ≠ mark := by
  fun_cases Role.of release argument with
  | case1 word => exact ofWord_ne_mark word
  | case2 letters => exact ofLetters_ne_mark release letters
  | case3 => nofun

end Role

end Reckoner
