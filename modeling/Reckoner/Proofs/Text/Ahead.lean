import Mathlib
import Reckoner.Text.Cursor

/-!
# What lies ahead of a cursor

A cursor is seen by a parser only through the characters ahead of it, as long as it does not lie
before the beginning of its text. Moving forward drops characters from what is ahead, so a cursor
reached from another one is named here by what it still has ahead: the offsets disappear from
everything that is said about parsers, and come back only as lengths.
-/

namespace Reckoner

namespace Cursor

/-- The offset, counted from the end if it is negative, is not before the beginning of the text. -/
def InReach (c : Cursor) : Prop :=
  -(c.text.size : Int) ≤ c.offset

theorem inReach_of_nonneg {c : Cursor} (h : 0 ≤ c.offset) : c.InReach := by
  unfold InReach
  omega

theorem ahead_of_neg {c : Cursor} (h : c.offset < 0) :
    c.ahead = c.text.toList.drop (c.offset + c.text.size).toNat ++ c.text.toList := by
  rw [ahead, if_pos h, position, if_pos h]

theorem ahead_of_nonneg {c : Cursor} (h : 0 ≤ c.offset) : c.ahead = c.text.toList.drop c.offset.toNat := by
  rw [ahead, if_neg (by omega)]

theorem length_ahead {c : Cursor} (h : c.InReach) : c.ahead.length = c.room := by
  unfold InReach at h
  unfold room
  rcases lt_or_ge c.offset 0 with hoffset | hoffset
  · rw [ahead_of_neg hoffset]
    simp only [List.length_append, List.length_drop, Array.length_toList]
    omega
  · rw [ahead_of_nonneg hoffset]
    simp only [List.length_drop, Array.length_toList]
    omega

theorem ahead_advance {c : Cursor} (h : c.InReach) (count : Nat) :
    (c.advance count).ahead = c.ahead.drop count := by
  unfold InReach at h
  rcases lt_or_ge c.offset 0 with hoffset | hoffset
  · have hlength : (c.text.toList.drop (c.offset + c.text.size).toNat).length = (-c.offset).toNat := by
      simp only [List.length_drop, Array.length_toList]
      omega
    rw [ahead_of_neg hoffset, List.drop_append, hlength, List.drop_drop]
    rcases lt_or_ge (c.offset + count) 0 with hmoved | hmoved
    · rw [ahead_of_neg hmoved, text_advance, offset_advance,
        show count - (-c.offset).toNat = 0 by omega, List.drop_zero]
      congr 2
      omega
    · have hpast : c.text.toList.drop ((c.offset + c.text.size).toNat + count) = [] :=
        List.drop_eq_nil_of_le (by simp only [Array.length_toList]; omega)
      rw [ahead_of_nonneg hmoved, text_advance, offset_advance, hpast, List.nil_append]
      congr 1
      omega
  · rw [ahead_of_nonneg hoffset, ahead_of_nonneg (by rw [offset_advance]; omega), List.drop_drop,
      text_advance, offset_advance]
    congr 1
    omega

theorem head?_eq_head?_ahead {c : Cursor} (h : c.InReach) : c.head? = c.ahead.head? := by
  unfold InReach at h
  unfold head?
  rcases lt_or_ge c.offset 0 with hoffset | hoffset
  · have hposition : c.position = c.offset + c.text.size := if_pos hoffset
    have hlength : (c.offset + c.text.size).toNat < c.text.toList.length := by
      simp only [Array.length_toList]
      omega
    rw [hposition, if_neg (by omega), ahead_of_neg hoffset, List.head?_append, List.head?_drop,
      List.getElem?_eq_getElem hlength, Option.some_or, ← Array.getElem?_toList,
      List.getElem?_eq_getElem hlength]
  · have hposition : c.position = c.offset := if_neg (by omega)
    rw [hposition, if_neg (by omega), ahead_of_nonneg hoffset, List.head?_drop, Array.getElem?_toList]

theorem atEnd_iff_ahead_eq_nil {c : Cursor} (h : c.InReach) : c.atEnd = true ↔ c.ahead = [] := by
  rw [← List.length_eq_zero_iff, length_ahead h]
  simp only [atEnd, room, decide_eq_true_eq]
  omega

/-! ### Moving to what is left -/

/-- The cursor moved forward until `rest` is what lies ahead. -/
def upTo (c : Cursor) (rest : List Char) : Cursor :=
  c.advance (c.ahead.length - rest.length : Nat)

@[simp] theorem text_upTo (c : Cursor) (rest : List Char) : (c.upTo rest).text = c.text :=
  rfl

theorem offset_upTo (c : Cursor) (rest : List Char) :
    (c.upTo rest).offset = c.offset + (c.ahead.length - rest.length : Nat) :=
  rfl

@[simp] theorem upTo_ahead (c : Cursor) : c.upTo c.ahead = c := by
  simp [upTo, advance]

theorem InReach.upTo {c : Cursor} (h : c.InReach) (rest : List Char) : (c.upTo rest).InReach := by
  unfold InReach at *
  rw [text_upTo, offset_upTo]
  omega

theorem ahead_upTo {c : Cursor} (h : c.InReach) {rest : List Char} (hrest : rest <:+ c.ahead) :
    (c.upTo rest).ahead = rest := by
  rw [Cursor.upTo, ahead_advance h]
  exact (List.suffix_iff_eq_drop.mp hrest).symm

theorem upTo_upTo {c : Cursor} (h : c.InReach) {rest further : List Char} (hrest : rest <:+ c.ahead)
    (hfurther : further <:+ rest) : (c.upTo rest).upTo further = c.upTo further := by
  have hlength := hrest.length_le
  have hshorter := hfurther.length_le
  conv_lhs => rw [Cursor.upTo, ahead_upTo h hrest]
  simp only [Cursor.upTo, advance_advance]
  congr 1
  omega

theorem room_upTo {c : Cursor} (h : c.InReach) {rest : List Char} (hrest : rest <:+ c.ahead) :
    (c.upTo rest).room = rest.length := by
  rw [← length_ahead (h.upTo rest), ahead_upTo h hrest]

theorem room_upTo_lt {c : Cursor} (h : c.InReach) {rest : List Char} (hrest : rest <:+ c.ahead)
    (hshorter : rest.length < c.ahead.length) : (c.upTo rest).room < c.room := by
  rwa [room_upTo h hrest, ← length_ahead h]

/-- Where the cursor stands tells what lies ahead. -/
theorem eq_of_offset_upTo {c : Cursor} (h : c.InReach) {rest other : List Char} (hrest : rest <:+ c.ahead)
    (hother : other <:+ c.ahead) (hoffset : (c.upTo rest).offset = (c.upTo other).offset) : rest = other := by
  have hsame : c.upTo rest = c.upTo other := by
    rw [mk.injEq]
    exact ⟨rfl, hoffset⟩
  rw [← ahead_upTo h hrest, hsame, ahead_upTo h hother]

/-! ### The beginning of a text -/

theorem inReach_ofString (text : String) : (ofString text).InReach :=
  inReach_of_nonneg (Int.le_refl 0)

@[simp] theorem ahead_ofString (text : String) : (ofString text).ahead = text.toList := by
  simp [ofString, ahead]

end Cursor

end Reckoner
