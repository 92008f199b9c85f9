/-
**Cutting a text at an offset.**

The library reads a text from the front and keeps what is left of it, so nothing it does to a text
can fail.  A program that holds a text in one piece works with offsets instead: it cuts the text where
it stands, and it takes differences of offsets.  Cutting fails if the offset is no boundary, and a
difference of natural numbers fails if it is negative.

The modules in this directory write the classifier in that form.  A result of type `Option` is `none`
if an operation fails on the way there, and also if the way does not end: the loops over the scanner
and over the tokens are least fixed points, with no measure that would promise an end.  That a
computation gives `some` result says both that it ends and that nothing in it fails.

Main definitions:

* `Caret.Checked.cutAt?`, `Caret.Checked.slice?` — a text cut at an offset, and what stands between
  two offsets;
* `Caret.Checked.range?` — the elements of a list between two indices;
* `Caret.Checked.sub?` — a difference;
* `Caret.Checked.floor?` — walking back to a boundary byte by byte.

Main results:

* `Caret.Checked.cutAt?_eq_some_iff`, `Caret.Checked.cutAt?_isSome_iff` — cutting succeeds exactly at
  the boundaries;
* `Caret.Checked.slice?_append` — the middle of three parts is the slice between its ends;
* `Caret.Checked.floor?_eq` — walking back ends at the boundary that rounding down gives.
-/

import Caret.Proofs.Slice
import Caret.Text.Cut

set_option relaxedAutoImplicit false
set_option autoImplicit false

namespace Caret.Checked

/-! ### Operations that can fail -/

/-- The text cut behind its first `n` bytes.  There have to be as many, and they have to end between
two characters. -/
def cutAt? : Nat → List Char → Option Cut
  | 0, cs => some (.nothing cs)
  | _ + 1, [] => none
  | n + 1, c :: cs =>
    if c.utf8Size ≤ n + 1 then (cutAt? (n + 1 - c.utf8Size) cs).map (.keep [c]) else none

/-- The difference of two numbers, the second of which has to be the smaller one. -/
def sub? (m n : Nat) : Option Nat := if n ≤ m then some (m - n) else none

/-- The part of a text between two offsets. -/
def slice? (start stop : Nat) (cs : List Char) : Option (List Char) := do
  let length ← sub? stop start
  let behind ← cutAt? start cs
  let part ← cutAt? length behind.rest
  return part.taken

/-- The elements of a list from the index `start` up to `stop`. -/
def range? {α : Type} (start stop : Nat) (xs : List α) : Option (List α) := do
  let length ← sub? stop start
  if stop ≤ xs.length then return (xs.drop start).take length else none

/-- An offset walked back, byte by byte, until the text can be cut there.  Nothing is in front of the
first byte. -/
def floor? (cs : List Char) : Nat → Option Nat
  | 0 => if (cutAt? 0 cs).isSome then some 0 else none
  | n + 1 => if (cutAt? (n + 1) cs).isSome then some (n + 1) else floor? cs n

/-! ### Where a text can be cut -/

theorem sub?_of_le {m n : Nat} (h : n ≤ m) : sub? m n = some (m - n) := if_pos h

/-- Between two parts a text can be cut. -/
theorem cutAt?_append (front back : List Char) :
    cutAt? (utf8Length front) (front ++ back) = some ⟨front, back⟩ := by
  induction front with
  | nil =>
      rw [utf8Length_nil, List.nil_append, cutAt?]
      rfl
  | cons c front ih =>
      obtain ⟨n, hn⟩ : ∃ n, utf8Length (c :: front) = n + 1 :=
        Nat.exists_eq_succ_of_ne_zero (utf8Length_pos (List.cons_ne_nil c front)).ne'
      have hle : c.utf8Size ≤ n + 1 := by
        rw [← hn, utf8Length_cons]
        exact Nat.le_add_right _ _
      have hsub : n + 1 - c.utf8Size = utf8Length front := by
        rw [← hn, utf8Length_cons, Nat.add_sub_cancel_left]
      rw [hn, List.cons_append, cutAt?, if_pos hle, hsub, ih]
      rfl

/-- A text that is cut consists of its two parts, and the first has as many bytes as asked for. -/
theorem cutAt?_eq_some_iff {n : Nat} {cs : List Char} {c : Cut} :
    cutAt? n cs = some c ↔ c.whole = cs ∧ utf8Length c.taken = n := by
  constructor
  · intro h
    fun_induction cutAt? n cs generalizing c with
    | case1 cs =>
        obtain rfl := Option.some.inj h
        exact ⟨Cut.whole_nothing cs, rfl⟩
    | case2 => exact absurd h (by simp)
    | case3 n d cs hle ih =>
        obtain ⟨c, hc, rfl⟩ := Option.map_eq_some_iff.1 h
        obtain ⟨hwhole, hlength⟩ := ih hc
        refine ⟨by rw [Cut.whole_keep, hwhole, List.singleton_append], ?_⟩
        rw [Cut.taken_keep, List.singleton_append, utf8Length_cons, hlength]
        omega
    | case4 => exact absurd h (by simp)
  · rintro ⟨rfl, rfl⟩
    exact cutAt?_append c.taken c.rest

/-- A text can be cut exactly at its boundaries. -/
theorem cutAt?_isSome_iff {n : Nat} {cs : List Char} :
    (cutAt? n cs).isSome = true ↔ IsBoundary cs n := by
  rw [Option.isSome_iff_exists]
  constructor
  · rintro ⟨c, hc⟩
    obtain ⟨rfl, rfl⟩ := cutAt?_eq_some_iff.1 hc
    exact isBoundary_append c.taken c.rest
  · rintro ⟨front, ⟨back, rfl⟩, rfl⟩
    exact ⟨_, cutAt?_append front back⟩

/-- The middle of three parts is the slice between its ends. -/
theorem slice?_append (front middle back : List Char) :
    slice? (utf8Length front) (utf8Length front + utf8Length middle) (front ++ (middle ++ back))
      = some middle := by
  rw [slice?, sub?_of_le (Nat.le_add_right _ _), cutAt?_append]
  simp only [Option.bind_eq_bind, Option.bind_some, Nat.add_sub_cancel_left, cutAt?_append]
  rfl

theorem range?_append {α : Type} (front middle back : List α) :
    range? front.length (front.length + middle.length) (front ++ (middle ++ back)) = some middle := by
  rw [range?, sub?_of_le (Nat.le_add_right _ _)]
  simp

/-! ### Walking back to a boundary -/

theorem floor?_of_isBoundary {cs : List Char} {n : Nat} (h : IsBoundary cs n) :
    floor? cs n = some n := by
  cases n <;> rw [floor?, if_pos (cutAt?_isSome_iff.2 h)]

theorem floor?_of_not_isBoundary {cs : List Char} {n : Nat} (h : ¬ IsBoundary cs (n + 1)) :
    floor? cs (n + 1) = floor? cs n := by
  rw [floor?, if_neg (mt cutAt?_isSome_iff.1 h)]

/-- Walking back ends at the largest boundary that is not larger. -/
theorem floor?_eq {cs : List Char} {n : Nat} (h : n ≤ utf8Length cs) :
    floor? cs n = some (floorBoundary cs n) := by
  induction n with
  | zero =>
      rw [floorBoundary, takeBytes_zero, utf8Length_nil]
      exact floor?_of_isBoundary ⟨[], List.nil_prefix, rfl⟩
  | succ n ih =>
      have hgreatest := isGreatest_floorBoundary cs (n + 1)
      by_cases hb : IsBoundary cs (n + 1)
      · rw [floor?_of_isBoundary hb, floorBoundary_of_isBoundary hb]
      · rw [floor?_of_not_isBoundary hb, ih (Nat.le_of_succ_le h)]
        -- the largest boundary is not the offset itself, so it is one further back already
        have hne : floorBoundary cs (n + 1) ≠ n + 1 := fun heq => hb (heq ▸ hgreatest.1.1)
        have hle : floorBoundary cs (n + 1) ≤ n + 1 := utf8Length_takeBytes_le (n + 1) cs
        have hback : floorBoundary cs (n + 1) ≤ floorBoundary cs n :=
          (isGreatest_floorBoundary cs n).2 ⟨hgreatest.1.1, le_min (by omega) hgreatest.1.1.le⟩
        rw [le_antisymm (floorBoundary_mono cs (Nat.le_succ n)) hback]

end Caret.Checked
