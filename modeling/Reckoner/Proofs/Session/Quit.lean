import Mathlib
import Reckoner.Session
import Reckoner.Proofs.Text.Lines

/-!
# Sessions up to the line that ends them

What a session takes from a text in which only line feeds end lines, told by what stands between the
line feeds: everything up to the first line that reads `quit`, trimmed and without the blank lines.
The text after that line is left unread, so a text without such a line can be put before any other
text, and the session goes on as if it had begun there.
-/

namespace Reckoner

namespace Session

/-- The lines before the first one that reads `quit`, or all of them. -/
def beforeQuit (lines : List (List Char)) : List (List Char) :=
  lines.takeWhile fun line => !isQuit (trim line)

/-- The text after the first line that reads `quit`, or nothing. -/
def afterQuit (lines : List (List Char)) : List Char :=
  ['\n'].intercalate (lines.drop ((beforeQuit lines).length + 1))

/-- What stands on the lines that are not blank, without the blanks around it. -/
def entriesOn (lines : List (List Char)) : List String :=
  ((lines.map trim).filter fun entry => !entry.isEmpty).map String.ofList

variable {line : List Char}

/-! ### One line -/

theorem beforeQuit_cons_of_quit (h : isQuit (trim line) = true) (lines : List (List Char)) :
    beforeQuit (line :: lines) = [] := by
  simp [beforeQuit, h]

theorem beforeQuit_cons_of_not_quit (h : isQuit (trim line) = false) (lines : List (List Char)) :
    beforeQuit (line :: lines) = line :: beforeQuit lines := by
  simp [beforeQuit, h]

theorem afterQuit_cons_of_quit (h : isQuit (trim line) = true) (lines : List (List Char)) :
    afterQuit (line :: lines) = ['\n'].intercalate lines := by
  rw [afterQuit, beforeQuit_cons_of_quit h, List.length_nil, Nat.zero_add, List.drop_one, List.tail_cons]

theorem afterQuit_cons_of_not_quit (h : isQuit (trim line) = false) (lines : List (List Char)) :
    afterQuit (line :: lines) = afterQuit lines := by
  rw [afterQuit, beforeQuit_cons_of_not_quit h, List.length_cons, List.drop_succ_cons, afterQuit]

theorem mem_entriesOn_iff {entry : String} {lines : List (List Char)} :
    entry ∈ entriesOn lines ↔ ∃ line ∈ lines, trim line ≠ [] ∧ String.ofList (trim line) = entry := by
  simp only [entriesOn, List.mem_map, List.mem_filter, Bool.not_eq_true', List.isEmpty_eq_false_iff]
  constructor
  · rintro ⟨_, ⟨⟨line, hline, rfl⟩, hne⟩, hentry⟩
    exact ⟨line, hline, hne, hentry⟩
  · rintro ⟨line, hline, hne, hentry⟩
    exact ⟨trim line, ⟨⟨line, hline, rfl⟩, hne⟩, hentry⟩

theorem entriesOn_cons (line : List Char) (lines : List (List Char)) :
    entriesOn (line :: lines) = entriesOn [line] ++ entriesOn lines := by
  rw [entriesOn, List.map_cons, ← List.singleton_append, List.filter_append, List.map_append]
  rfl

theorem entriesOn_of_blank (h : trim line = []) : entriesOn [line] = [] := by
  simp [entriesOn, h]

theorem entriesOn_of_text (h : trim line ≠ []) : entriesOn [line] = [String.ofList (trim line)] := by
  simp [entriesOn, h]

theorem ofLines_cons_of_quit (h : isQuit (trim line) = true) (lines : List (List Char)) :
    ofLines (line :: lines) = ⟨[], String.ofList lines.flatten, true⟩ := by
  simp [ofLines, h]

theorem ofLines_cons_of_not_quit (h : isQuit (trim line) = false) (lines : List (List Char)) :
    ofLines (line :: lines) =
      { ofLines lines with expressions := entriesOn [line] ++ (ofLines lines).expressions } := by
  rw [ofLines, h, if_neg Bool.false_ne_true]
  by_cases hblank : trim line = []
  · rw [entriesOn_of_blank hblank, hblank, List.isEmpty_nil, if_pos rfl, List.nil_append]
  · rw [entriesOn_of_text hblank, if_neg (mt List.isEmpty_iff.mp hblank)]
    rfl

/-! ### A text line by line -/

theorem ofLines_linesOf_last (h : '\n' ∉ line) : ofLines (linesOf line) =
    if isQuit (trim line) then ⟨[], "", true⟩ else ⟨entriesOn [line], "", false⟩ := by
  by_cases hnil : line = []
  · rw [hnil]
    rfl
  · rw [linesOf_of_notMem h hnil]
    split
    · rename_i hquit
      exact ofLines_cons_of_quit hquit []
    · rename_i hquit
      rw [ofLines_cons_of_not_quit (Bool.eq_false_of_not_eq_true hquit)]
      simp [ofLines]

theorem ofLines_linesOf_append (h : '\n' ∉ line) (rest : List Char) : ofLines (linesOf (line ++ '\n' :: rest)) =
    if isQuit (trim line) then ⟨[], String.ofList rest, true⟩
    else { ofLines (linesOf rest) with expressions := entriesOn [line] ++ (ofLines (linesOf rest)).expressions } := by
  have htrim : trim (line ++ ['\n']) = trim line := trim_line line
  rw [linesOf_append h]
  split
  · rename_i hquit
    rw [ofLines_cons_of_quit (htrim ▸ hquit), flatten_linesOf]
  · rename_i hquit
    rw [ofLines_cons_of_not_quit (htrim ▸ Bool.eq_false_of_not_eq_true hquit), entriesOn, List.map_singleton, htrim]
    rfl

theorem splitOn_last (h : '\n' ∉ line) : line.splitOn '\n' = [line] :=
  List.splitOnP_eq_singleton fun _ hc => beq_eq_false_iff_ne.mpr fun hfeed => h (hfeed ▸ hc)

theorem splitOn_append (h : '\n' ∉ line) (rest : List Char) :
    (line ++ '\n' :: rest).splitOn '\n' = line :: rest.splitOn '\n' :=
  List.splitOn_append_cons_self_of_not_mem h rest

theorem notMem_of_mem_splitOn {text : List Char} : ∀ line ∈ text.splitOn '\n', '\n' ∉ line := by
  induction text using line_induction with
  | last line hline =>
    rw [splitOn_last hline]
    exact List.forall_mem_singleton.mpr hline
  | feed line rest hline ih =>
    rw [splitOn_append hline]
    exact List.forall_mem_cons.mpr ⟨hline, ih⟩

/-- The session on a text, by its lines. -/
theorem ofLines_linesOf (text : List Char) : ofLines (linesOf text) =
    { expressions := entriesOn (beforeQuit (text.splitOn '\n'))
      unread := String.ofList (afterQuit (text.splitOn '\n'))
      ended := (text.splitOn '\n').any fun line => isQuit (trim line) } := by
  induction text using line_induction with
  | last line hline =>
    rw [ofLines_linesOf_last hline, splitOn_last hline]
    split
    · rename_i hquit
      rw [beforeQuit_cons_of_quit hquit, afterQuit_cons_of_quit hquit, List.any_cons, hquit]
      rfl
    · rename_i hquit
      have hquit := Bool.eq_false_of_not_eq_true hquit
      rw [beforeQuit_cons_of_not_quit hquit, afterQuit_cons_of_not_quit hquit, List.any_cons, hquit]
      rfl
  | feed line rest hline ih =>
    rw [ofLines_linesOf_append hline, splitOn_append hline]
    split
    · rename_i hquit
      rw [beforeQuit_cons_of_quit hquit, afterQuit_cons_of_quit hquit, List.intercalate_splitOn, List.any_cons, hquit]
      rfl
    · rename_i hquit
      have hquit := Bool.eq_false_of_not_eq_true hquit
      rw [ih, beforeQuit_cons_of_not_quit hquit, afterQuit_cons_of_not_quit hquit, entriesOn_cons line (beforeQuit _),
        List.any_cons, hquit, Bool.false_or]

/-- A text without a line that reads `quit` can be put before any other one. -/
theorem ofLines_linesOf_append_text {text more : List Char}
    (h : ∀ line ∈ text.splitOn '\n', isQuit (trim line) = false) : ofLines (linesOf (text ++ '\n' :: more)) =
      { ofLines (linesOf more) with
        expressions := (ofLines (linesOf text)).expressions ++ (ofLines (linesOf more)).expressions } := by
  induction text using line_induction with
  | last line hline =>
    rw [splitOn_last hline, List.forall_mem_singleton] at h
    rw [ofLines_linesOf_append hline, ofLines_linesOf_last hline, h]
    rfl
  | feed line rest hline ih =>
    rw [splitOn_append hline, List.forall_mem_cons] at h
    rw [List.append_assoc, List.cons_append, ofLines_linesOf_append hline, ofLines_linesOf_append hline, h.1,
      ih h.2]
    simp

end Session

open Session

/-- A session takes what stands on the lines before the first one that reads `quit`, and leaves the
text after that line unread. So it takes from two texts, the first of which has no such line, what it
takes from each of them. Nothing that it takes is empty, has a blank at one of its ends or a line feed
in it, or reads `quit`. -/
theorem session_up_to_first_quit :
    (∀ text : List Char, ofLines (linesOf text) =
      { expressions := entriesOn (beforeQuit (text.splitOn '\n'))
        unread := String.ofList (afterQuit (text.splitOn '\n'))
        ended := (text.splitOn '\n').any fun line => isQuit (trim line) }) ∧
    (∀ text more : List Char, (∀ line ∈ text.splitOn '\n', isQuit (trim line) = false) →
      ofLines (linesOf (text ++ '\n' :: more)) =
        { expressions := (ofLines (linesOf text)).expressions ++ (ofLines (linesOf more)).expressions
          unread := (ofLines (linesOf more)).unread
          ended := (ofLines (linesOf more)).ended }) ∧
    ∀ text : List Char, ∀ entry ∈ (ofLines (linesOf text)).expressions, entry ≠ "" ∧
      (∀ c ∈ entry.toList.head?, isBlank c = false) ∧ (∀ c ∈ entry.toList.getLast?, isBlank c = false) ∧
      '\n' ∉ entry.toList ∧ isQuit entry.toList = false := by
  refine ⟨ofLines_linesOf, fun text more hquit => ofLines_linesOf_append_text hquit, ?_⟩
  intro text entry hentry
  rw [ofLines_linesOf] at hentry
  obtain ⟨line, hline, hne, rfl⟩ := mem_entriesOn_iff.mp hentry
  have hfeed : '\n' ∉ line := notMem_of_mem_splitOn line ((List.takeWhile_sublist _).mem hline)
  have hquit : isQuit (trim line) = false := by simpa using List.mem_takeWhile_imp hline
  rw [String.toList_ofList]
  refine ⟨?_, isBlank_head?_trim line, isBlank_getLast?_trim line, fun hmem => hfeed (mem_of_mem_trim hmem), hquit⟩
  rintro hempty
  rw [← String.toList_eq_nil_iff, String.toList_ofList] at hempty
  exact hne hempty

/-- The second text goes on after its line that reads `quit`, and its last line has no end. -/
theorem session_on_two_texts :
    (∀ line ∈ " 1+1\n\t".toList.splitOn '\n', isQuit (trim line) = false) ∧
    (ofLines (linesOf (" 1+1\n\t".toList ++ '\n' :: "2\n QuIt \n3".toList))).expressions = ["1+1", "2"] ∧
    (ofLines (linesOf (" 1+1\n\t".toList ++ '\n' :: "2\n QuIt \n3".toList))).unread = "3" := by
  have hquit : ∀ line ∈ " 1+1\n\t".toList.splitOn '\n', isQuit (trim line) = false := by decide
  rw [session_up_to_first_quit.2.1 " 1+1\n\t".toList "2\n QuIt \n3".toList hquit]
  exact ⟨hquit, by decide, by decide⟩

end Reckoner
