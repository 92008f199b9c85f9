/-
**Places in a text.**

A place is given by a line, a column and an offset.  Lines and columns count from one and columns
count characters; the offset counts bytes from zero.  Walking over a character moves the place: a
newline starts the next line, any other character takes one column.  This module moves places over
text, finds the place of an offset, and finds the offset of a line and column.

Main definitions:

* `Caret.Position`, `Caret.Position.advance`, `Caret.Position.after` — a place, and where walking
  over a character or a text leads;
* `Caret.Position.ofOffset` — the place of an offset;
* `Caret.offsetAt` — the offset of a line and column;
* `Caret.PositionError` — why a line and column have no offset.

Main results:

* `Caret.Position.after_append` — walking over two texts is walking over one, then the other;
* `Caret.Position.offset_after` — the offset grows by the length of the text in bytes.
-/

import Caret.Text.Boundary
import Caret.Text.Pieces

set_option relaxedAutoImplicit false
set_option autoImplicit false

namespace Caret

/-- A place in a text: line and column from one, the column in characters, and the offset in bytes
from zero. -/
structure Position where
  line : Nat
  column : Nat
  offset : Nat
  deriving DecidableEq, Repr

namespace Position

/-! ### Walking over text -/

/-- The beginning of a text. -/
def start : Position := ⟨1, 1, 0⟩

/-- The place after the character `c`. -/
def advance (p : Position) (c : Char) : Position :=
  if c = '\n' then ⟨p.line + 1, 1, p.offset + c.utf8Size⟩
  else ⟨p.line, p.column + 1, p.offset + c.utf8Size⟩

/-- The place after the text `cs`. -/
def after (p : Position) (cs : List Char) : Position := cs.foldl advance p

@[simp] theorem after_nil (p : Position) : p.after [] = p := rfl

@[simp] theorem after_cons (p : Position) (c : Char) (cs : List Char) :
    p.after (c :: cs) = (p.advance c).after cs := rfl

theorem after_append (p : Position) (cs ds : List Char) :
    p.after (cs ++ ds) = (p.after cs).after ds := by
  simp [after, List.foldl_append]

@[simp] theorem offset_advance (p : Position) (c : Char) :
    (p.advance c).offset = p.offset + c.utf8Size := by
  rw [advance]
  split <;> rfl

@[simp] theorem offset_after (p : Position) (cs : List Char) :
    (p.after cs).offset = p.offset + utf8Length cs := by
  induction cs generalizing p with
  | nil => rfl
  | cons c cs ih => rw [after_cons, ih, offset_advance, utf8Length_cons, Nat.add_assoc]

/-! ### The place of an offset -/

/-- The place of the byte `offset`: the line and column reached over the characters that start
before it, and the offset clamped to the text. -/
def ofOffset (text : List Char) (offset : Nat) : Position :=
  let reached := start.after (coverBytes offset text)
  ⟨reached.line, reached.column, min offset (utf8Length text)⟩

/-- The usual short form, line and column joined by a colon. -/
def render (p : Position) : String := Nat.repr p.line ++ ":" ++ Nat.repr p.column

end Position

/-! ### The offset of a line and column -/

/-- Why a line and column are no place in a text. -/
inductive PositionError where
  /-- The line or the column is zero. -/
  | notOneBased (line column : Nat)
  /-- The text has only `count` lines. -/
  | pastLastLine (line count : Nat)
  deriving DecidableEq, Repr

/-- The wording of an error. -/
def PositionError.message : PositionError → String
  | notOneBased line column =>
    "line and column are 1-based, got " ++ Nat.repr line ++ ":" ++ Nat.repr column
  | pastLastLine line count =>
    "line " ++ Nat.repr line ++ " is past the end of the buffer (" ++ Nat.repr count ++ " lines)"

/-- The offset of a line and column.  A column past the end of its line means the end of the line,
before the newline. -/
def offsetAt (text : List Char) (line column : Nat) : Except PositionError Nat :=
  if line = 0 ∨ column = 0 then .error (.notOneBased line column)
  else
    match (lines text)[line - 1]? with
    | none => .error (.pastLastLine line (lines text).length)
    | some content =>
      let above := ((lines text).take (line - 1)).map fun l => utf8Length l + 1
      .ok (above.foldr (· + ·) 0 + utf8Length (content.take (column - 1)))

end Caret
