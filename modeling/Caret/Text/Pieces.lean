/-
**A text in pieces.**

A character that separates cuts a text into pieces, one more than there are separators.  Newlines
cut a text into its lines.

Main definitions:

* `Caret.pieces` — the pieces between separators;
* `Caret.lines` — the lines of a text.

Main results:

* `Caret.length_pieces` — there is one piece more than there are separators.
-/

set_option relaxedAutoImplicit false
set_option autoImplicit false

namespace Caret

/-- The pieces of a text between the characters `separator`. -/
def pieces (separator : Char) : List Char → List (List Char)
  | [] => [[]]
  | c :: cs =>
    if c = separator then [] :: pieces separator cs
    else
      match pieces separator cs with
      | [] => [[c]]
      | piece :: rest => (c :: piece) :: rest

/-- There is one piece more than there are separators. -/
theorem length_pieces (separator : Char) (cs : List Char) :
    (pieces separator cs).length = cs.count separator + 1 := by
  induction cs with
  | nil => rfl
  | cons c cs ih =>
      rw [pieces]
      by_cases h : c = separator
      · simp [h, ih]
      · rw [if_neg h, List.count_cons_of_ne h, ← ih]
        cases hl : pieces separator cs with
        | nil => simp [hl] at ih
        | cons piece rest => simp

/-- The lines of a text, without the newlines that end them. -/
def lines (cs : List Char) : List (List Char) := pieces '\n' cs

/-- A text has one line more than it has newlines. -/
theorem length_lines (cs : List Char) : (lines cs).length = cs.count '\n' + 1 :=
  length_pieces _ cs

end Caret
