/-
**A text cut in two.**

Every reader of the lexer cuts what it takes off the front of a text.  Its answer is the part taken
and the rest, and the first thing to know of each reader is that the two parts laid end to end are
the text it was given.

Main definitions:

* `Caret.Cut` — a part taken and the rest;
* `Caret.Cut.whole` — both parts laid end to end;
* `Caret.Cut.keep` — more text in front of the part taken;
* `Caret.Cut.run` — the longest initial run of characters of a class.

Main results:

* `Caret.Cut.whole_keep`, `Caret.Cut.whole_run` — what they cut is what they were given.
-/

set_option relaxedAutoImplicit false
set_option autoImplicit false

namespace Caret

/-- A text cut in two. -/
structure Cut where
  taken : List Char
  rest : List Char
  deriving DecidableEq, Repr

namespace Cut

/-- The text that was cut. -/
def whole (c : Cut) : List Char := c.taken ++ c.rest

/-- Nothing taken. -/
def nothing (cs : List Char) : Cut := ⟨[], cs⟩

/-- The same cut with the text `front` in front, taken as well. -/
def keep (front : List Char) (c : Cut) : Cut := ⟨front ++ c.taken, c.rest⟩

/-- The longest initial run of characters of the class `p`. -/
def run (p : Char → Bool) (cs : List Char) : Cut := ⟨cs.takeWhile p, cs.dropWhile p⟩

@[simp] theorem taken_keep (front : List Char) (c : Cut) :
    (c.keep front).taken = front ++ c.taken := rfl

@[simp] theorem rest_keep (front : List Char) (c : Cut) : (c.keep front).rest = c.rest := rfl

@[simp] theorem taken_nothing (cs : List Char) : (nothing cs).taken = [] := rfl

@[simp] theorem rest_nothing (cs : List Char) : (nothing cs).rest = cs := rfl

@[simp] theorem whole_nothing (cs : List Char) : (nothing cs).whole = cs := rfl

@[simp] theorem whole_keep (front : List Char) (c : Cut) :
    (c.keep front).whole = front ++ c.whole := by
  simp [whole, List.append_assoc]

@[simp] theorem whole_run (p : Char → Bool) (cs : List Char) : (run p cs).whole = cs :=
  List.takeWhile_append_dropWhile

/-- A cut that takes something leaves less. -/
theorem length_rest_lt {c : Cut} (h : c.taken ≠ []) : c.rest.length < c.whole.length := by
  have := List.length_pos_iff.2 h
  simp only [whole, List.length_append]
  omega

end Cut

end Caret
