import Mathlib
import Reckoner.Proofs.CommandLine.Answers
import Reckoner.Proofs.Session.Quit

/-!
# Texts entered line by line

A session takes from a stream what was entered into it: each text on a line of its own, with blanks
around it and blank lines between, up to the end of the stream or a line that reads `quit`. The three
kinds of line are gone through one at a time. A line that ends in a carriage return needs care, since
a line feed that begins the next line is then read as part of the same end; the next line is blank in
that case, and blank lines are passed over.
-/

namespace Reckoner

namespace Session

/-- The session on a stream with these characters. -/
def onStream (stream : List Char) : Session :=
  ofLines (linesOf (uniformLineEnds stream))

/-! ### One line -/

section

variable {line : List Char}

theorem expressions_ofLines_of_blank (hblank : trim line = []) (lines : List (List Char)) :
    (ofLines (line :: lines)).expressions = (ofLines lines).expressions := by
  rw [ofLines_cons_of_not_quit (hblank ▸ rfl), entriesOn_of_blank hblank]
  rfl

theorem expressions_ofLines_of_quit (hquit : isQuit (trim line) = true) (lines : List (List Char)) :
    (ofLines (line :: lines)).expressions = [] := by
  rw [ofLines_cons_of_quit hquit]

theorem expressions_ofLines_of_text (hquit : isQuit (trim line) = false) (hne : trim line ≠ [])
    (lines : List (List Char)) :
    (ofLines (line :: lines)).expressions = String.ofList (trim line) :: (ofLines lines).expressions := by
  rw [ofLines_cons_of_not_quit hquit, entriesOn_of_text hne]
  rfl

/-- However the first line of a stream ends, the lines after it have the expressions of the rest. -/
theorem exists_onStream_eq (hline : OnOneLine line) {lineEnd : List Char} (hend : LineEnd lineEnd) (rest : List Char) :
    ∃ lines, onStream (line ++ lineEnd ++ rest) = ofLines ((line ++ ['\n']) :: lines) ∧
      (ofLines lines).expressions = (onStream rest).expressions := by
  rw [List.append_assoc, onStream, uniformLineEnds_append hline]
  cases hend with
  | feed =>
    refine ⟨linesOf (uniformLineEnds rest), ?_, rfl⟩
    rw [← linesOf_append hline.notMem]
    rfl
  | carriageFeed =>
    refine ⟨linesOf (uniformLineEnds rest), ?_, rfl⟩
    rw [← linesOf_append hline.notMem]
    rfl
  | carriage =>
    by_cases hfeed : ∃ more, rest = '\n' :: more
    · obtain ⟨more, rfl⟩ := hfeed
      refine ⟨linesOf (uniformLineEnds more), ?_, ?_⟩
      · rw [← linesOf_append hline.notMem]
        rfl
      · exact (expressions_ofLines_of_blank (trim_line []) _).symm
    · refine ⟨linesOf (uniformLineEnds rest), ?_, rfl⟩
      rw [← linesOf_append hline.notMem, List.singleton_append, uniformLineEnds]
      exact fun more hmore => hfeed ⟨more, hmore⟩

variable {lineEnd : List Char}

theorem expressions_of_blank_line (hline : OnOneLine line) (hend : LineEnd lineEnd) (hblank : trim line = [])
    (rest : List Char) : (onStream (line ++ lineEnd ++ rest)).expressions = (onStream rest).expressions := by
  obtain ⟨lines, hstream, hrest⟩ := exists_onStream_eq hline hend rest
  rw [hstream, expressions_ofLines_of_blank ((trim_line line).trans hblank), hrest]

theorem expressions_of_quit_line (hline : OnOneLine line) (hend : LineEnd lineEnd) (hquit : isQuit (trim line) = true)
    (rest : List Char) : (onStream (line ++ lineEnd ++ rest)).expressions = [] := by
  obtain ⟨lines, hstream, -⟩ := exists_onStream_eq hline hend rest
  rw [hstream, expressions_ofLines_of_quit (by rwa [trim_line])]

theorem expressions_of_text_line (hline : OnOneLine line) (hend : LineEnd lineEnd)
    (hquit : isQuit (trim line) = false) (hne : trim line ≠ []) (rest : List Char) :
    (onStream (line ++ lineEnd ++ rest)).expressions = String.ofList (trim line) :: (onStream rest).expressions := by
  obtain ⟨lines, hstream, hrest⟩ := exists_onStream_eq hline hend rest
  rw [hstream, expressions_ofLines_of_text (by rwa [trim_line]) (by rwa [trim_line]), trim_line, hrest]

end

/-- The last line of a stream may have no end. -/
theorem onStream_of_onOneLine {line : List Char} (hline : OnOneLine line) (hne : line ≠ []) :
    onStream line = ofLines [line] := by
  have huniform := uniformLineEnds_append hline []
  rw [List.append_nil, show uniformLineEnds [] = [] from rfl, List.append_nil] at huniform
  rw [onStream, huniform, linesOf_of_notMem hline.notMem hne]

/-! ### The word that ends a session -/

/-- No blank has another character as its lower case. -/
theorem toLower_of_isBlank {c : Char} (h : isBlank c = true) : c.toLower = c := by
  have hnot : ¬ (c.val ≥ 'A'.val ∧ c.val ≤ 'Z'.val) := by
    rintro ⟨hge, hle⟩
    have hfirst : 65 ≤ c.toNat := hge
    have hlast : c.toNat ≤ 90 := hle
    simp only [isBlank, Blank.ranges, List.any_cons, List.any_nil, Bool.or_eq_true, Bool.and_eq_true,
      decide_eq_true_eq, Bool.false_eq_true, or_false] at h
    omega
  rw [Char.toLower, dif_neg hnot]

theorem isBlank_of_mem_quit {word : List Char} (h : isQuit word = true) : ∀ c ∈ word, isBlank c = false := by
  have hletter : ∀ c ∈ ['q', 'u', 'i', 't'], isBlank c = false := by
    intro c hc
    fin_cases hc <;> rfl
  have hword : word.map Char.toLower = ['q', 'u', 'i', 't'] := beq_iff_eq.mp h
  intro c hc
  have hlower := hletter c.toLower (hword ▸ List.mem_map_of_mem hc)
  rw [← Bool.not_eq_true]
  intro hblank
  rw [toLower_of_isBlank hblank, hblank] at hlower
  exact absurd hlower nofun

end Session

/-! ### Streams that texts are entered into -/

/-- A text that a line of a stream can carry: it is not empty, has no end of a line in it and no
blank at its ends, and does not read `quit` in any letter case. -/
structure IsEntry (text : String) : Prop where
  ne_empty : text ≠ ""
  onOneLine : OnOneLine text.toList
  head_not_blank : ∀ c ∈ text.toList.head?, isBlank c = false
  last_not_blank : ∀ c ∈ text.toList.getLast?, isBlank c = false
  not_quit : Session.isQuit text.toList = false

/-- Blanks that do not end a line. -/
structure IsMargin (margin : List Char) : Prop where
  blank : ∀ c ∈ margin, isBlank c = true
  onOneLine : OnOneLine margin

/-- The stream has these texts in it, each on a line of its own with any blanks around it, with any
blank lines between the lines. After the last text it may come to an end, maybe with a blank line
that has no end, or a line that reads `quit`, and then anything, may follow. -/
inductive Enters : List String → List Char → Prop
  | done {margin : List Char} (h : IsMargin margin) : Enters [] margin
  | quit {before word after : List Char} (hbefore : IsMargin before) (hword : Session.isQuit word = true)
    (hafter : IsMargin after) : Enters [] (before ++ word ++ after)
  | quitBefore {before word after lineEnd : List Char} (hbefore : IsMargin before) (hword : Session.isQuit word = true)
    (hafter : IsMargin after) (hend : LineEnd lineEnd) (rest : List Char) :
    Enters [] (before ++ word ++ after ++ lineEnd ++ rest)
  | blank {margin lineEnd : List Char} {texts : List String} {rest : List Char} (h : IsMargin margin)
    (hend : LineEnd lineEnd) (hrest : Enters texts rest) : Enters texts (margin ++ lineEnd ++ rest)
  | text {before after lineEnd : List Char} (text : String) {texts : List String} {rest : List Char}
    (hbefore : IsMargin before) (hafter : IsMargin after) (hend : LineEnd lineEnd) (hrest : Enters texts rest) :
    Enters (text :: texts) (before ++ text.toList ++ after ++ lineEnd ++ rest)

theorem IsEntry.toList_ne_nil {text : String} (h : IsEntry text) : text.toList ≠ [] :=
  mt String.toList_eq_nil_iff.mp h.ne_empty

theorem IsEntry.trim_surrounded {text : String} (h : IsEntry text) {before after : List Char} (hbefore : IsMargin before)
    (hafter : IsMargin after) : trim (before ++ text.toList ++ after) = text.toList :=
  Reckoner.trim_surrounded hbefore.blank hafter.blank h.head_not_blank h.last_not_blank

theorem IsEntry.onOneLine_surrounded {text : String} (h : IsEntry text) {before after : List Char}
    (hbefore : IsMargin before) (hafter : IsMargin after) : OnOneLine (before ++ text.toList ++ after) :=
  (hbefore.onOneLine.append h.onOneLine).append hafter.onOneLine

namespace Session

section

variable {before word after : List Char}

theorem isQuit_trim_surrounded (hbefore : IsMargin before) (hword : isQuit word = true) (hafter : IsMargin after) :
    isQuit (trim (before ++ word ++ after)) = true := by
  have hblank := isBlank_of_mem_quit hword
  rwa [trim_surrounded hbefore.blank hafter.blank (fun c hc => hblank c (List.mem_of_mem_head? hc))
    (fun c hc => hblank c (List.mem_of_mem_getLast? hc))]

theorem onOneLine_quit (hbefore : IsMargin before) (hword : isQuit word = true) (hafter : IsMargin after) :
    OnOneLine (before ++ word ++ after) := by
  have hblank := isBlank_of_mem_quit hword
  refine (hbefore.onOneLine.append ?_).append hafter.onOneLine
  intro c hc
  have hc := hblank c hc
  constructor <;> rintro rfl <;> exact absurd hc (by decide)

end

/-- The session on a stream has the texts that were entered into it. -/
theorem expressions_of_enters {texts : List String} {stream : List Char} (h : Enters texts stream)
    (hentries : ∀ text ∈ texts, IsEntry text) : (onStream stream).expressions = texts := by
  induction h with
  | @done margin hmargin =>
    by_cases hnil : margin = []
    · rw [hnil]
      rfl
    · rw [onStream_of_onOneLine hmargin.onOneLine hnil, expressions_ofLines_of_blank (trim_of_blank hmargin.blank)]
      rfl
  | @quit before word after hbefore hword hafter =>
    have hne : before ++ word ++ after ≠ [] := by
      rintro hnil
      rw [List.append_eq_nil_iff, List.append_eq_nil_iff] at hnil
      rw [hnil.1.2] at hword
      exact absurd hword (by decide)
    rw [onStream_of_onOneLine (onOneLine_quit hbefore hword hafter) hne]
    exact expressions_ofLines_of_quit (isQuit_trim_surrounded hbefore hword hafter) []
  | quitBefore hbefore hword hafter hend rest =>
    exact expressions_of_quit_line (onOneLine_quit hbefore hword hafter) hend
      (isQuit_trim_surrounded hbefore hword hafter) rest
  | blank hmargin hend _ ih =>
    rw [expressions_of_blank_line hmargin.onOneLine hend (trim_of_blank hmargin.blank), ih hentries]
  | text text hbefore hafter hend _ ih =>
    obtain ⟨hentry, hentries⟩ := List.forall_mem_cons.mp hentries
    have htrim := hentry.trim_surrounded hbefore hafter
    rw [expressions_of_text_line (hentry.onOneLine_surrounded hbefore hafter) hend (by rw [htrim, hentry.not_quit])
      (by rw [htrim]; exact hentry.toList_ne_nil), htrim, String.ofList_toList, ih hentries]

end Session

/-- Texts are answered alike whether they are given as arguments or entered into standard input. -/
theorem entered_texts_answered_like_arguments {texts : List String} {stream : String}
    (hentries : ∀ text ∈ texts, IsEntry text) (hstream : Enters texts stream.toList) (verbose : Bool) :
    ∃ response, Response.ofRequest (.evaluate texts verbose) "" = .returned response ∧
      Response.ofRequest (.evaluate [] verbose) stream = .returned response := by
  have hsession : (Session.ofString stream).expressions = texts := Session.expressions_of_enters hstream hentries
  obtain ⟨reports, hreports⟩ := Report.exists_forall₂_isOn texts
  have hanswered := Response.ofExpressions_eq_answering hreports verbose
  have hgiven : (Request.evaluate texts verbose).expressionsToEvaluate "" = texts := by
    cases texts <;> rfl
  refine ⟨.answering verbose reports, ?_, ?_⟩
  · rw [Response.ofRequest, hgiven, hanswered]
  · rw [Response.ofRequest, Request.expressionsToEvaluate, hsession, hanswered]

/-- The line feed of a blank line comes after a carriage return, and the session ends before the end
of the stream. -/
theorem two_texts_entered_before_quit : ∃ response,
    Response.ofRequest (.evaluate ["1+1", "2 *"] true) "" = .returned response ∧
    Response.ofRequest (.evaluate [] true) " \t\r\n\u000b1+1 \r\n2 *\n\u2028\r QuIt\u3000\n3\nquit" =
      .returned response := by
  have hmargin {margin : List Char} (h : (margin.all fun c => isBlank c && c != '\n' && c != '\r') = true) :
      IsMargin margin := by
    simp only [List.all_eq_true, Bool.and_eq_true, bne_iff_ne] at h
    exact ⟨fun c hc => (h c hc).1.1, fun c hc => ⟨(h c hc).1.2, (h c hc).2⟩⟩
  have hentries : ∀ text ∈ ["1+1", "2 *"], IsEntry text := by
    intro text htext
    fin_cases htext
    · exact ⟨by decide, by simp [OnOneLine], by rintro c ⟨⟩; rfl, by rintro c ⟨⟩; rfl, rfl⟩
    · exact ⟨by decide, by simp [OnOneLine], by rintro c ⟨⟩; rfl, by rintro c ⟨⟩; rfl, rfl⟩
  have hnone : IsMargin [] := hmargin rfl
  have hquit : Enters [] ([' '] ++ ['Q', 'u', 'I', 't'] ++ ['\u3000'] ++ ['\n'] ++ "3\nquit".toList) :=
    .quitBefore (hmargin rfl) rfl (hmargin rfl) .feed _
  have hsecond := Enters.text "2 *" hnone hnone .feed (.blank (hmargin rfl : IsMargin ['\u2028']) .carriage hquit)
  have hfirst := Enters.text "1+1" (hmargin rfl : IsMargin ['\u000b']) (hmargin rfl : IsMargin [' ']) .carriage
    (.blank hnone .feed hsecond)
  have hstream : Enters ["1+1", "2 *"] " \t\r\n\u000b1+1 \r\n2 *\n\u2028\r QuIt\u3000\n3\nquit".toList :=
    .blank (hmargin rfl : IsMargin [' ', '\t']) .carriageFeed hfirst
  exact entered_texts_answered_like_arguments hentries hstream true

end Reckoner
