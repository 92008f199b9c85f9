/-
**Reports.**

A report says what the cursor stands in and where it is.  It is written either as four lines of
text, or as a JSON object that holds the place of the cursor, the kind of the context, and the parts
of that kind.

Main definitions:

* `Caret.Report` — a context and the place of the cursor;
* `Caret.Report.Format` — the two ways of writing a report;
* `Caret.Report.text`, `Caret.Report.json` — a report as lines of text, and as a JSON value;
* `Caret.Report.render` — a report in a format.
-/

import Caret.Context
import Caret.Json

set_option relaxedAutoImplicit false
set_option autoImplicit false

namespace Caret

/-- What the cursor stands in, and where it is. -/
structure Report where
  cursor : Position
  context : Context
  deriving DecidableEq, Repr

namespace Report

/-- The report of a cursor in a source text. -/
def ofCursor (source : String) (cursor : Nat) : Report :=
  ⟨.ofOffset source.toList cursor, classify source cursor⟩

/-- The ways of writing a report. -/
inductive Format where
  | text
  | json
  deriving DecidableEq, Repr

/-- The name of a format. -/
def Format.name : Format → String
  | text => "text"
  | json => "json"

/-- The format of a name. -/
def Format.ofName? (name : String) : Option Format :=
  [text, json].find? fun format => format.name == name

/-- A format has the name that it is found by. -/
theorem Format.ofName?_eq_some_iff {name : String} {format : Format} :
    ofName? name = some format ↔ name = format.name := by
  constructor
  · intro h
    have := List.find?_some h
    exact (beq_iff_eq.1 this).symm
  · rintro rfl
    cases format <;> decide

/-- A report as four lines of text. -/
def text (r : Report) : String :=
  "context=" ++ r.context.kind.name ++ "\nexpr=" ++ r.context.expression ++
    "\npartial=" ++ r.context.typed ++ "\ncursor=" ++ r.cursor.render

/-- A text that may be missing. -/
def optional : Option String → Json
  | some s => .string s
  | none => .null

/-- The parts of a context by name. -/
def parts : Context → List (String × Json)
  | .unknown typed => [("partial", .string typed)]
  | .importPath path => [("path", .string path)]
  | .selector operand typed => [("expr", optional operand), ("partial", .string typed)]
  | .compositeLiteral typeName typed =>
    [("typeName", optional typeName), ("partial", .string typed)]

/-- A report as a JSON value. -/
def json (r : Report) : Json :=
  .object
    (("cursor", .object
      [("line", .number r.cursor.line), ("column", .number r.cursor.column),
       ("offset", .number r.cursor.offset)]) ::
     ("context", .string r.context.kind.name) :: parts r.context)

/-- A report in a format. -/
def render (r : Report) : Format → String
  | .text => r.text
  | .json => r.json.render

end Report

end Caret
