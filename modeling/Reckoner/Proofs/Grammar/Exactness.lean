import Mathlib
import Reckoner.Proofs.Grammar.Course
import Reckoner.Proofs.Grammar.Followers

/-!
# Reading what a derivation lays out

A course that succeeds has found a derivation and read exactly a text that lays out its tokens. The
other way round, a text that lays out the tokens of a derivation is read as this very derivation,
and reading stops after it, if what comes next is a sign that cannot continue the rule. Without this
condition the reading may go on, but it still does not stop earlier: in a chain every operand but
the last is followed by the sign of the chain, and a sum in parentheses by the closing one, so that
only the last operand depends on what comes next.
-/

namespace Reckoner

open Grammar

/-! ### What is read is laid out -/

theorem exists_laidOut_of_afterSign? {s : Sign} {text rest : List Char} (h : afterSign? s.char text = some rest) :
    ∃ laid, text = laid ++ rest ∧ LaidOut [.sign s] laid := by
  obtain ⟨after, hafter, rfl⟩ := afterSign?_eq_some_iff.mp h
  obtain ⟨before, hbefore⟩ := exists_eq_replicate_append_afterSpaces text
  obtain ⟨behind, hbehind⟩ := exists_eq_replicate_append_afterSpaces after
  refine ⟨_, ?_, .cons before (.sign s) (.nil behind)⟩
  rw [List.append_assoc, List.append_assoc, ← hbehind, hbefore, hafter]
  rfl

theorem exists_laidOut_of_readNumber? {l : Literal} {text rest : List Char} (h : readNumber? text = some (l, rest)) :
    ∃ laid, text = laid ++ rest ∧ LaidOut [.literal l] laid := by
  obtain ⟨after, hread, rfl⟩ := readNumber?_eq_some_iff.mp h
  obtain ⟨before, hbefore⟩ := exists_eq_replicate_append_afterSpaces text
  obtain ⟨behind, hbehind⟩ := exists_eq_replicate_append_afterSpaces after
  refine ⟨_, ?_, .cons before (.literal l) (.nil behind)⟩
  rw [List.append_assoc, List.append_assoc, ← hbehind, hbefore, eq_append_of_readLiteral? hread]
  rfl

/-- Soundness: what is read before the text that is left lays out the tokens of the derivation. -/
theorem Grammar.Course.exists_laidOut {rule : Rule} {text : List Char} {visits : List Visit}
    {result : Option (Derivation rule × List Char)} (h : Course rule text visits result) :
    ∀ found ∈ result, ∃ laid, text = laid ++ found.2 ∧ LaidOut found.1.tokens laid := by
  induction h with
  | number h =>
    subst h
    intro found hfound
    obtain ⟨⟨l, rest⟩, hread, rfl⟩ := Option.map_eq_some_iff.mp hfound
    exact exists_laidOut_of_readNumber? hread
  | bare _ _ ih =>
    intro found hfound
    obtain ⟨inner, hinner, rfl⟩ := Option.map_eq_some_iff.mp hfound
    exact ih inner hinner
  | enclosed hopen _ hclose ih =>
    rintro found ⟨⟩
    obtain ⟨opening, rfl, hopening⟩ := exists_laidOut_of_afterSign? (s := .opening) hopen
    obtain ⟨inside, rfl, hinside⟩ := ih _ rfl
    obtain ⟨closing, rfl, hclosing⟩ := exists_laidOut_of_afterSign? (s := .closing) hclose
    refine ⟨opening ++ (inside ++ closing), ?_, hopening.append (hinside.append hclosing)⟩
    rw [List.append_assoc, List.append_assoc]
  | unclosed | missing => simp
  | alone _ _ _ ih | retracted _ _ _ _ ih =>
    rintro found ⟨⟩
    exact ih _ rfl
  | chained _ _ hsign _ ih ihmore =>
    rintro found ⟨⟩
    obtain ⟨left, rfl, hleft⟩ := ih _ rfl
    obtain ⟨between, rfl, hbetween⟩ := exists_laidOut_of_afterSign? hsign
    obtain ⟨right, rfl, hright⟩ := ihmore _ rfl
    refine ⟨left ++ (between ++ right), ?_, hleft.append (hbetween.append hright)⟩
    rw [List.append_assoc, List.append_assoc]

/-! ### What is laid out is read -/

section LaidText

variable {rule : Rule} {laid text rest : List Char} {visits : List Visit}

theorem readNumber?_of_laidOut {l : Literal} (hlaid : LaidOut [.literal l] laid) (hrest : EndsLiteral rest)
    (htext : afterSpaces text = afterSpaces (laid ++ rest)) : readNumber? text = some (l, afterSpaces rest) := by
  obtain ⟨before, more, rfl, hmore⟩ := hlaid.exists_of_cons
  obtain ⟨behind, rfl⟩ := hmore.exists_of_nil
  rw [List.append_assoc, List.append_assoc, afterSpaces_replicate_append, Token.text, afterSpaces_text_append] at htext
  have hends : EndsLiteral (List.replicate behind ' ' ++ rest) := by
    cases behind with
    | zero => exact hrest
    | succ behind =>
      intro c hc
      cases hc
      decide
  refine readNumber?_eq_some_iff.mpr ⟨_, ?_, (afterSpaces_replicate_append behind rest).symm⟩
  rw [htext, readLiteral?_append l hends]

theorem afterSign?_of_laidOut {s : Sign} (hlaid : LaidOut [.sign s] laid)
    (htext : afterSpaces text = afterSpaces (laid ++ rest)) : afterSign? s.char text = some (afterSpaces rest) := by
  obtain ⟨before, more, rfl, hmore⟩ := hlaid.exists_of_cons
  obtain ⟨behind, rfl⟩ := hmore.exists_of_nil
  rw [afterSign?_congr htext, List.append_assoc, List.append_assoc]
  apply (afterSign?_spaces_sign s before _).trans
  exact congrArg some (afterSpaces_replicate_append behind rest)

theorem afterSign?_eq_none_of_laidOut {l : Literal} (s : Sign) (hlaid : LaidOut [.literal l] laid)
    (htext : afterSpaces text = afterSpaces (laid ++ rest)) : afterSign? s.char text = none := by
  obtain ⟨before, more, rfl, -⟩ := hlaid.exists_of_cons
  rw [List.append_assoc, List.append_assoc, afterSpaces_replicate_append, Token.text] at htext
  rw [afterSign?_congr htext, afterSign?_text_append]

theorem followed_of_laidOut {s : Sign} (hs : s ∈ rule.followers) (hlaid : LaidOut [.sign s] laid) (rest : List Char) :
    Followed rule (laid ++ rest) := by
  obtain ⟨before, more, rfl, -⟩ := hlaid.exists_of_cons
  rw [List.append_assoc, List.append_assoc]
  exact followed_spaces_sign hs before (more ++ rest)

theorem Derivation.exists_eq_number (d : Derivation .number) : ∃ l, d = .number l := by
  cases d with
  | number l => exact ⟨l, rfl⟩
  | alone hchain | chained hchain => simp [Rule.chain?] at hchain

end LaidText

/-- Every course of the rule that starts like `laid` and then `rest` finds the derivation, and
leaves `rest`. -/
structure ReadAs {rule : Rule} (d : Derivation rule) (laid rest : List Char) : Prop where
  eq_some : ∀ {text visits result}, afterSpaces text = afterSpaces (laid ++ rest) → Course rule text visits result →
    result = some (d, afterSpaces rest)

namespace ReadAs

variable {rule : Rule} {k : Chain} {laid rest : List Char}

theorem number {l : Literal} (hlaid : LaidOut [.literal l] laid) (hrest : EndsLiteral rest) :
    ReadAs (.number l) laid rest := by
  constructor
  intro text visits result htext h
  obtain ⟨-, rfl⟩ := h.of_number
  rw [readNumber?_of_laidOut hlaid hrest htext]
  rfl

theorem bare {inner : Derivation .number} (hlaid : LaidOut inner.tokens laid) (hinner : ReadAs inner laid rest) :
    ReadAs (.bare inner) laid rest := by
  constructor
  intro text visits result htext h
  obtain ⟨l, rfl⟩ := inner.exists_eq_number
  obtain ⟨-, _, _, hnumber, rfl⟩ | ⟨_, _, _, hopen, -, -⟩ := h.of_factor
  · rw [hinner.eq_some htext hnumber]
    rfl
  · have hnone := afterSign?_eq_none_of_laidOut .opening hlaid htext
    exact absurd (hopen.symm.trans hnone) nofun

theorem enclosed {inner : Derivation .sum} {opening inside closing : List Char}
    (hopening : LaidOut [.sign .opening] opening) (hinner : ReadAs inner inside (closing ++ rest))
    (hclosing : LaidOut [.sign .closing] closing) : ReadAs (.enclosed inner) (opening ++ (inside ++ closing)) rest := by
  constructor
  intro text visits result htext h
  rw [List.append_assoc, List.append_assoc] at htext
  have hafterOpening : afterSign? '(' text = some (afterSpaces (inside ++ (closing ++ rest))) :=
    afterSign?_of_laidOut hopening htext
  have hafterClosing : afterSign? ')' (afterSpaces (closing ++ rest)) = some (afterSpaces rest) :=
    afterSign?_of_laidOut hclosing (afterSpaces_afterSpaces _)
  obtain ⟨hnone, -⟩ | ⟨_, _, _, hopen, hsum, rfl⟩ := h.of_factor
  · exact absurd (hnone.symm.trans hafterOpening) nofun
  · obtain rfl := Option.some.inj (hopen.symm.trans hafterOpening)
    rw [hinner.eq_some (afterSpaces_afterSpaces _) hsum, Option.bind_some, hafterClosing]
    rfl

theorem alone (hchain : rule.chain? = some k) {operand : Derivation k.operand} (hoperand : ReadAs operand laid rest)
    (hsign : afterSign? k.sign.char rest = none) : ReadAs (.alone hchain operand) laid rest := by
  constructor
  intro text visits result htext h
  rw [← afterSign?_congr (afterSpaces_afterSpaces rest)] at hsign
  obtain ⟨_, hmissing, -⟩ | ⟨_, left, after, hleft, hafter⟩ := h.of_chain hchain
  · exact absurd (hoperand.eq_some htext hmissing) nofun
  · obtain ⟨rfl, rfl⟩ := Prod.mk.inj (Option.some.inj (hoperand.eq_some htext hleft))
    obtain ⟨-, rfl⟩ | ⟨_, _, _, hsome, -, -⟩ := hafter
    · rfl
    · exact absurd (hsome.symm.trans hsign) nofun

/-- After an operand that is followed by the sign of the chain, everything depends on the right-hand
side. -/
theorem exists_of_chain (hchain : rule.chain? = some k) {left : Derivation k.operand} {between more text : List Char}
    {visits : List Visit} {result : Option (Derivation rule × List Char)}
    (hleft : ReadAs left laid (between ++ more)) (hbetween : LaidOut [.sign k.sign] between)
    (htext : afterSpaces text = afterSpaces (laid ++ (between ++ more))) (h : Course rule text visits result) :
    ∃ others rhs, Course rule (afterSpaces more) others rhs ∧ result = some (rhs.elim
      (.alone hchain left, afterSpaces (between ++ more)) fun found => (.chained hchain left found.1, found.2)) := by
  have hafterSign : afterSign? k.sign.char (afterSpaces (between ++ more)) = some (afterSpaces more) :=
    afterSign?_of_laidOut hbetween (afterSpaces_afterSpaces _)
  obtain ⟨_, hmissing, -⟩ | ⟨_, operand, after, hoperand, hafter⟩ := h.of_chain hchain
  · exact absurd (hleft.eq_some htext hmissing) nofun
  · obtain ⟨rfl, rfl⟩ := Prod.mk.inj (Option.some.inj (hleft.eq_some htext hoperand))
    obtain ⟨hnone, -⟩ | ⟨inner, others, rhs, hsome, hrhs, hresult⟩ := hafter
    · exact absurd (hnone.symm.trans hafterSign) nofun
    · obtain rfl := Option.some.inj (hsome.symm.trans hafterSign)
      exact ⟨others, rhs, hrhs, hresult⟩

theorem chained (hchain : rule.chain? = some k) {left : Derivation k.operand} {right : Derivation rule}
    {between more : List Char} (hleft : ReadAs left laid (between ++ (more ++ rest)))
    (hbetween : LaidOut [.sign k.sign] between) (hright : ReadAs right more rest) :
    ReadAs (.chained hchain left right) (laid ++ (between ++ more)) rest := by
  constructor
  intro text visits result htext h
  rw [List.append_assoc, List.append_assoc] at htext
  obtain ⟨others, rhs, hrhs, rfl⟩ := hleft.exists_of_chain hchain hbetween htext h
  rw [hright.eq_some (afterSpaces_afterSpaces _) hrhs]
  rfl

end ReadAs

section Laid

variable {rule : Rule} {laid rest : List Char}

theorem LaidOut.exists_of_enclosed {inner : Derivation .sum} (h : LaidOut (Derivation.enclosed inner).tokens laid) :
    ∃ opening inside closing, laid = opening ++ (inside ++ closing) ∧ LaidOut [.sign .opening] opening ∧
      LaidOut inner.tokens inside ∧ LaidOut [.sign .closing] closing := by
  obtain ⟨opening, more, rfl, hopening, hmore⟩ :=
    LaidOut.exists_of_append [.sign .opening] (inner.tokens ++ [.sign .closing]) h
  obtain ⟨inside, closing, rfl, hinside, hclosing⟩ := LaidOut.exists_of_append inner.tokens _ hmore
  exact ⟨opening, inside, closing, rfl, hopening, hinside, hclosing⟩

theorem LaidOut.exists_of_chained {k : Chain} {hchain : rule.chain? = some k} {left : Derivation k.operand}
    {right : Derivation rule} (h : LaidOut (Derivation.chained hchain left right).tokens laid) :
    ∃ first between second, laid = first ++ (between ++ second) ∧ LaidOut left.tokens first ∧
      LaidOut [.sign k.sign] between ∧ LaidOut right.tokens second := by
  obtain ⟨first, more, rfl, hfirst, hmore⟩ := LaidOut.exists_of_append left.tokens _ h
  obtain ⟨between, second, rfl, hbetween, hsecond⟩ :=
    LaidOut.exists_of_append [.sign k.sign] right.tokens hmore
  exact ⟨first, between, second, rfl, hfirst, hbetween, hsecond⟩

/-- Exactness: a text that lays out a derivation is read as this derivation if a follower of the
rule or the end comes next. -/
theorem Derivation.readAs (d : Derivation rule) (hlaid : LaidOut d.tokens laid) (hrest : Followed rule rest) :
    ReadAs d laid rest := by
  induction d generalizing laid rest with
  | number l => exact .number hlaid hrest.endsLiteral
  | bare inner ih => exact .bare hlaid (ih hlaid hrest)
  | enclosed inner ih =>
    obtain ⟨opening, inside, closing, rfl, hopening, hinside, hclosing⟩ := hlaid.exists_of_enclosed
    have hnext : Followed .sum (closing ++ rest) := followed_of_laidOut (List.mem_singleton_self _) hclosing rest
    exact .enclosed hopening (ih hinside hnext) hclosing
  | alone hchain operand ih =>
    have hsign := hrest.afterSign?_eq_none (sign_notMem_followers hchain)
    exact .alone hchain (ih hlaid (hrest.operand hchain)) hsign
  | @chained rule k hchain left right ihleft ihright =>
    obtain ⟨first, between, second, rfl, hfirst, hbetween, hsecond⟩ := hlaid.exists_of_chained
    have hnext := followed_of_laidOut (sign_mem_followers hchain) hbetween (second ++ rest)
    exact .chained hchain (ihleft hfirst hnext) hbetween (ihright hsecond hrest)

/-- A whole text that lays out a derivation is read as this derivation. -/
theorem Derivation.eq_some_of_laidOut (d : Derivation rule) (hlaid : LaidOut d.tokens laid) {visits : List Visit}
    {result : Option (Derivation rule × List Char)} (h : Course rule laid visits result) : result = some (d, []) := by
  have htext : afterSpaces laid = afterSpaces (laid ++ []) := by rw [List.append_nil]
  exact (d.readAs hlaid (followed_nil rule)).eq_some htext h

/-! ### Nothing stops short -/

theorem exists_readNumber?_of_laidOut {l : Literal} {text : List Char} (hlaid : LaidOut [.literal l] laid)
    (htext : afterSpaces text = afterSpaces (laid ++ rest)) :
    ∃ longer after, readNumber? text = some (longer, after) ∧ after.length ≤ rest.length := by
  obtain ⟨before, more, rfl, hmore⟩ := hlaid.exists_of_cons
  obtain ⟨behind, rfl⟩ := hmore.exists_of_nil
  cases behind with
  | zero =>
    rw [List.replicate_zero, List.append_nil, List.append_assoc, afterSpaces_replicate_append, Token.text,
      afterSpaces_text_append] at htext
    obtain ⟨longer, after, hread, hprefix⟩ := exists_readLiteral?_append l rest
    have hlength := congrArg List.length (eq_append_of_readLiteral? hread)
    rw [List.length_append, List.length_append] at hlength
    have hlonger := hprefix.length_le
    have hspaces := (afterSpaces_suffix after).length_le
    refine ⟨longer, afterSpaces after, readNumber?_eq_some_iff.mpr ⟨after, htext ▸ hread, rfl⟩, ?_⟩
    omega
  | succ behind =>
    have hends : EndsLiteral (List.replicate (behind + 1) ' ' ++ rest) := by
      intro c hc
      cases hc
      decide
    have hsplit : afterSpaces text = afterSpaces (List.replicate before ' ' ++ ((Token.literal l).text ++
        List.replicate 0 ' ') ++ (List.replicate (behind + 1) ' ' ++ rest)) := by
      simpa only [List.replicate_zero, List.append_nil, List.append_assoc] using htext
    have hread := readNumber?_of_laidOut (.cons before (.literal l) (.nil 0)) hends hsplit
    rw [afterSpaces_replicate_append] at hread
    exact ⟨l, afterSpaces rest, hread, (afterSpaces_suffix rest).length_le⟩

/-- Whatever comes after a text that lays out a derivation, no course fails or stops before it. -/
theorem Derivation.exists_found (d : Derivation rule) {text : List Char} {visits : List Visit}
    {result : Option (Derivation rule × List Char)} (hlaid : LaidOut d.tokens laid)
    (htext : afterSpaces text = afterSpaces (laid ++ rest)) (h : Course rule text visits result) :
    ∃ found ∈ result, found.2.length ≤ rest.length := by
  induction d generalizing laid text visits with
  | number l =>
    obtain ⟨-, rfl⟩ := h.of_number
    obtain ⟨longer, after, hread, hlength⟩ := exists_readNumber?_of_laidOut hlaid htext
    exact ⟨(.number longer, after), by rw [hread]; rfl, hlength⟩
  | bare inner ih =>
    obtain ⟨-, _, _, hnumber, rfl⟩ | ⟨_, _, _, hopen, -, -⟩ := h.of_factor
    · obtain ⟨found, rfl, hlength⟩ := ih hlaid htext hnumber
      exact ⟨_, rfl, hlength⟩
    · obtain ⟨l, rfl⟩ := inner.exists_eq_number
      have hnone := afterSign?_eq_none_of_laidOut .opening hlaid htext
      exact absurd (hopen.symm.trans hnone) nofun
  | enclosed inner =>
    obtain ⟨opening, inside, closing, rfl, hopening, hinside, hclosing⟩ := hlaid.exists_of_enclosed
    have hnext : Followed .sum (closing ++ rest) := followed_of_laidOut (List.mem_singleton_self _) hclosing rest
    -- The sum inside is followed by the closing parenthesis, whatever comes after that.
    have hread := ReadAs.enclosed hopening (inner.readAs hinside hnext) hclosing
    rw [hread.eq_some htext h]
    exact ⟨_, rfl, (afterSpaces_suffix rest).length_le⟩
  | alone hchain operand ih =>
    obtain ⟨_, hmissing, -⟩ | ⟨_, left, after, hleft, hafter⟩ := h.of_chain hchain
    · obtain ⟨_, hfound, -⟩ := ih hlaid htext hmissing
      exact absurd hfound nofun
    · obtain ⟨_, hfound, hlength⟩ := ih hlaid htext hleft
      obtain rfl := Option.some.inj hfound
      obtain ⟨-, rfl⟩ | ⟨inner, others, rhs, hsign, hrhs, rfl⟩ := hafter
      · exact ⟨_, rfl, hlength⟩
      · refine ⟨_, rfl, ?_⟩
        have hinner := length_lt_of_afterSign? hsign
        cases rhs with
        | none => exact hlength
        | some found =>
          have hrest := (hrhs.rest_suffix found rfl).length_le
          exact hrest.trans (hinner.le.trans hlength)
  | @chained rule k hchain left right ihleft ihright =>
    obtain ⟨first, between, second, rfl, hfirst, hbetween, hsecond⟩ := hlaid.exists_of_chained
    rw [List.append_assoc, List.append_assoc] at htext
    have hnext := followed_of_laidOut (sign_mem_followers hchain) hbetween (second ++ rest)
    -- The operand is followed by the sign, so it is read exactly and only the right-hand side may go on.
    obtain ⟨others, rhs, hrhs, rfl⟩ := (left.readAs hfirst hnext).exists_of_chain hchain hbetween htext h
    obtain ⟨found, rfl, hlength⟩ := ihright hsecond (afterSpaces_afterSpaces _) hrhs
    exact ⟨_, rfl, hlength⟩

end Laid

end Reckoner
