/-
**What stands between tokens.**

Blanks, newlines and comments separate tokens and are otherwise skipped.  A line comment runs up to
the next newline, or to the end of the text; a block comment runs through the next closing mark,
and through the end of the text if there is none.  The opening and closing marks of a block comment
do not share a character.

The gap before a token is the longest initial part of the text that consists of these.  It is cut
off here in one pass that remembers whether it stands between comments, in a line comment, or in a
block comment.

Main definitions:

* `Caret.isBlank`, `Caret.isSpace` — the characters skipped without and with the newline;
* `Caret.Trivia.Place`, `Caret.Trivia.cutFrom` — where the pass stands, and the pass;
* `Caret.Trivia.cut` — the gap at the front of a text, and the rest.

Main results:

* `Caret.Trivia.whole_cut` — the gap and the rest are the text.
-/

import Caret.Text.Cut

set_option relaxedAutoImplicit false
set_option autoImplicit false

namespace Caret

/-- A space, tab or carriage return: a blank that does not end a line. -/
def isBlank (c : Char) : Bool := c == ' ' || c == '\t' || c == '\r'

/-- A blank or a newline. -/
def isSpace (c : Char) : Bool := isBlank c || c == '\n'

namespace Trivia

/-- Where the pass over a gap stands. -/
inductive Place where
  | between
  | lineComment
  | blockComment
  deriving DecidableEq, Repr

/-- The gap at the front of a text that is read from the given place. -/
def cutFrom : Place → List Char → Cut
  | _, [] => .nothing []
  | .between, '/' :: '/' :: cs => (cutFrom .lineComment cs).keep ['/', '/']
  | .between, '/' :: '*' :: cs => (cutFrom .blockComment cs).keep ['/', '*']
  | .between, c :: cs =>
    if isSpace c then (cutFrom .between cs).keep [c] else .nothing (c :: cs)
  | .lineComment, c :: cs =>
    if c = '\n' then (cutFrom .between cs).keep [c] else (cutFrom .lineComment cs).keep [c]
  | .blockComment, '*' :: '/' :: cs => (cutFrom .between cs).keep ['*', '/']
  | .blockComment, c :: cs => (cutFrom .blockComment cs).keep [c]

/-- The gap at the front of a text. -/
def cut (cs : List Char) : Cut := cutFrom .between cs

/-- Behind the end of the text nothing is taken, wherever the pass stands. -/
@[simp] theorem cutFrom_nil (p : Place) : cutFrom p [] = .nothing [] := by rw [cutFrom]

theorem whole_cutFrom (p : Place) (cs : List Char) : (cutFrom p cs).whole = cs := by
  fun_induction cutFrom p cs <;> simp_all

/-- The gap and the rest laid end to end are the text. -/
@[simp] theorem whole_cut (cs : List Char) : (cut cs).whole = cs :=
  whole_cutFrom _ cs

end Trivia

end Caret
