/-
**Boundaries and slices.**

Offsets into a text count bytes, and only some of them fall between two characters.  This module
says which, shows that rounding an offset down finds the largest of them, and cuts the part between
two offsets out of a text.  The offsets of the lexer are all of this kind, so that a slice between
two of them can be told from how the text is put together.

Main definitions:

* `Caret.IsBoundary` — an offset between two characters, or at an end of the text;
* `Caret.slice` — the characters between two offsets.

Main results:

* `Caret.isGreatest_floorBoundary` — rounding down gives the largest boundary that is not larger;
* `Caret.slice_append` — the middle of three parts is the slice between its ends;
* `Caret.slice_ne_nil` — between two different boundaries there is something;
* `Caret.slice_append_slice` — two slices that meet make one slice.
-/

import Mathlib.Order.Bounds.Basic
import Caret.Text.Boundary

set_option relaxedAutoImplicit false
set_option autoImplicit false

namespace Caret

theorem utf8Length_pos {cs : List Char} (h : cs ≠ []) : 0 < utf8Length cs :=
  Nat.pos_of_ne_zero fun h' => h (utf8Length_eq_zero_iff.1 h')

/-! ### Boundaries -/

/-- An offset at which a character of the text starts, or at which the text ends. -/
def IsBoundary (cs : List Char) (n : Nat) : Prop := ∃ front, front <+: cs ∧ utf8Length front = n

theorem isBoundary_append (front back : List Char) : IsBoundary (front ++ back) (utf8Length front) :=
  ⟨front, List.prefix_append _ _, rfl⟩

theorem IsBoundary.le {cs : List Char} {n : Nat} (h : IsBoundary cs n) : n ≤ utf8Length cs := by
  obtain ⟨front, ⟨back, rfl⟩, rfl⟩ := h
  rw [utf8Length_append]
  exact Nat.le_add_right _ _

/-! ### Initial parts -/

@[simp] theorem takeBytes_append (front back : List Char) :
    takeBytes (utf8Length front) (front ++ back) = front := by
  rw [takeBytes_append_left back le_rfl, Nat.sub_self, takeBytes_zero, List.append_nil]

theorem takeBytes_of_isPrefix {front cs : List Char} (h : front <+: cs) :
    takeBytes (utf8Length front) cs = front := by
  obtain ⟨back, rfl⟩ := h
  exact takeBytes_append front back

theorem takeBytes_of_le {n : Nat} {cs : List Char} (h : utf8Length cs ≤ n) :
    takeBytes n cs = cs := by
  have := takeBytes_append_left [] h
  simpa using this

/-- What lies behind the first bytes of a text does not matter for them. -/
theorem takeBytes_append_of_le {n : Nat} {cs : List Char} {ds : List Char}
    (h : n ≤ utf8Length cs) : takeBytes n (cs ++ ds) = takeBytes n cs := by
  induction cs generalizing n with
  | nil =>
      obtain rfl : n = 0 := Nat.le_zero.1 h
      simp
  | cons c cs ih =>
      rw [utf8Length_cons] at h
      rw [List.cons_append, takeBytes, takeBytes, ih (by omega)]

theorem takeBytes_prefix_takeBytes {m n : Nat} (cs : List Char) (h : m ≤ n) :
    takeBytes m cs <+: takeBytes n cs := by
  obtain ⟨back, hback⟩ := takeBytes_prefix m cs
  have hle := utf8Length_takeBytes_le m cs
  conv_rhs => rw [← hback]
  rw [takeBytes_append_left back (by omega)]
  exact List.prefix_append _ _

/-- Rounding an offset down finds the largest boundary that is not larger and within the text. -/
theorem isGreatest_floorBoundary (cs : List Char) (n : Nat) :
    IsGreatest {b | IsBoundary cs b ∧ b ≤ min n (utf8Length cs)} (floorBoundary cs n) := by
  have hb : IsBoundary cs (floorBoundary cs n) := ⟨takeBytes n cs, takeBytes_prefix n cs, rfl⟩
  constructor
  · exact ⟨hb, le_min (utf8Length_takeBytes_le n cs) hb.le⟩
  · rintro b ⟨⟨front, ⟨back, rfl⟩, rfl⟩, hle⟩
    have hn : utf8Length front ≤ n := le_trans hle (min_le_left _ _)
    rw [floorBoundary, takeBytes_append_left back hn, utf8Length_append]
    exact Nat.le_add_right _ _

theorem floorBoundary_of_isBoundary {cs : List Char} {n : Nat} (h : IsBoundary cs n) :
    floorBoundary cs n = n := by
  obtain ⟨front, hfront, rfl⟩ := h
  rw [floorBoundary, takeBytes_of_isPrefix hfront]

theorem floorBoundary_mono (cs : List Char) {m n : Nat} (h : m ≤ n) :
    floorBoundary cs m ≤ floorBoundary cs n := by
  obtain ⟨back, hback⟩ := takeBytes_prefix_takeBytes cs h
  rw [floorBoundary, floorBoundary, ← hback, utf8Length_append]
  exact Nat.le_add_right _ _

/-! ### Slices -/

/-- The characters between two offsets of a text. -/
def slice (cs : List Char) (start stop : Nat) : List Char :=
  (takeBytes stop cs).drop (takeBytes start cs).length

/-- The middle of three parts is the slice between its ends. -/
theorem slice_append (front middle back : List Char) :
    slice (front ++ middle ++ back) (utf8Length front) (utf8Length front + utf8Length middle)
      = middle := by
  have h := takeBytes_append (front ++ middle) back
  rw [utf8Length_append] at h
  rw [slice, h, List.append_assoc, takeBytes_append, List.drop_left]

/-- A slice is what is behind its start of the part before its end. -/
theorem takeBytes_append_slice {cs : List Char} {start stop : Nat} (h : start ≤ stop) :
    takeBytes start cs ++ slice cs start stop = takeBytes stop cs :=
  List.prefix_iff_eq_append.1 (takeBytes_prefix_takeBytes cs h)

/-- Between two different boundaries there is something. -/
theorem slice_ne_nil {cs : List Char} {start stop : Nat} (hstart : IsBoundary cs start)
    (hstop : IsBoundary cs stop) (hlt : start < stop) : slice cs start stop ≠ [] := by
  intro hnil
  have h := @takeBytes_append_slice cs start stop hlt.le
  rw [hnil, List.append_nil] at h
  obtain ⟨left, hleft, rfl⟩ := hstart
  obtain ⟨right, hright, rfl⟩ := hstop
  rw [takeBytes_of_isPrefix hleft, takeBytes_of_isPrefix hright] at h
  rw [h] at hlt
  exact lt_irrefl _ hlt

/-- Two slices that meet make one slice. -/
theorem slice_append_slice {cs : List Char} {a b c : Nat} (hab : a ≤ b) (hbc : b ≤ c) :
    slice cs a b ++ slice cs b c = slice cs a c := by
  have h : takeBytes a cs ++ (slice cs a b ++ slice cs b c) = takeBytes a cs ++ slice cs a c := by
    rw [← List.append_assoc, takeBytes_append_slice hab, takeBytes_append_slice hbc,
      takeBytes_append_slice (hab.trans hbc)]
  exact List.append_cancel_left h

end Caret
