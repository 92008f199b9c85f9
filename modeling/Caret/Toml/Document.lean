/-
**TOML documents.**

A document is a sequence of lines.  A line gives a value to a key of the current table, or opens a
table by a header, or says nothing.  The lines are read first and then carried out one after the
other on the table of the whole document; each is refused if it defines again what is defined
already.

* A key gets one value.  A dotted key creates the tables it leads through, and may lead through
  them again, but through no table that a header names and through no closed one; the last table it
  leads to is one that dotted keys have created.
* A header opens a table that is new or only implied by an earlier header.
* A header in double brackets adds a table to an array of such tables.  A path that leads through
  the array leads through its last table.

Main definitions:

* `Caret.Toml.value`, `Caret.Toml.maxDepth` — a value, and how deep values may be nested;
* `Caret.Toml.Line`, `Caret.Toml.lines` — what a line says, and the lines of a document;
* `Caret.Toml.descend`, `Caret.Toml.assign` — reaching a table by a path, and adding a value;
* `Caret.Toml.Draft`, `Caret.Toml.Draft.add` — the document so far, and carrying out a line;
* `Caret.Toml.parse?` — the entries of a document.
-/

import Caret.Toml.Scalar

set_option relaxedAutoImplicit false
set_option autoImplicit false

namespace Caret.Toml

open Reader

/-! ### Reaching into tables -/

/-- Changes the entries of the table that a path leads to.  Tables that are missing are created with
the origin `created`; the change is told the origin of the table it is applied to. -/
def descend (created : Origin) (change : Origin → Entries → Option Entries) :
    List String → Origin → Entries → Option Entries
  | [], origin, entries => change origin entries
  | key :: keys, _, entries =>
    entries.update key fun
      | none => (descend created change keys created []).map (.table created)
      | some (.table .closed _) => none
      | some (.table origin inner) =>
        if created = .dotted ∧ origin = .named then none
        else (descend created change keys origin inner).map (.table origin)
      | some (.tables front last) => (descend created change keys .named last).map (.tables front)
      | some _ => none

/-- Gives a value to a key that has none.  Behind a dotted key only a table that dotted keys have
created takes the value. -/
def assign (p : Path) (v : Value) (entries : Entries) : Option Entries :=
  descend .dotted (fun origin inner =>
    if p.above = [] ∨ origin = .dotted then
      inner.update p.key fun
        | none => some v
        | some _ => none
    else none) p.above .named entries

/-! ### Values -/

/-- An array, behind its bracket, with items read by `item`. -/
def array (item : Reader Value) : Reader Value :=
  loop (fun items => do
    skipLines
    if ← skip? [']'] then return .inr (.array items.reverse)
    let v ← item
    skipLines
    if ← skip? [','] then return .inl (v :: items)
    expect ']'
    return .inr (.array (v :: items).reverse)) []

/-- A table between braces, behind the first of them, with values read by `item`. -/
def inlineTable (item : Reader Value) : Reader Value :=
  loop (fun entries => do
    skipLines
    if ← skip? ['\x7d'] then return .inr (.table .closed entries)
    let p ← path
    skipLines
    expect '='
    skipLines
    let v ← item
    skipLines
    match assign p v entries with
    | none => failure
    | some entries =>
      if ← skip? [','] then return .inl entries
      expect '\x7d'
      return .inr (.table .closed entries)) []

/-- A value whose parts, if it has any, are read by `item`; only values without parts are read if
there is no such reader. -/
def valueWith (item : Option (Reader Value)) : Reader Value := do
  match ← string? with
  | some s => pure (.string s)
  | none =>
    match item with
    | none => scalar
    | some item =>
      if ← skip? ['['] then array item
      else if ← skip? ['\x7b'] then inlineTable item
      else scalar

/-- A value in which arrays and tables are nested at most `depth` deep. -/
def value : Nat → Reader Value
  | 0 => valueWith none
  | depth + 1 => valueWith (some (value depth))

/-- How deep values may be nested. -/
def maxDepth : Nat := 80

/-! ### Lines -/

/-- What a line says. -/
inductive Line where
  /-- A key gets a value. -/
  | entry (p : Path) (v : Value)
  /-- A header opens a table. -/
  | header (p : Path)
  /-- A header adds a table to an array. -/
  | arrayHeader (p : Path)

/-- A line that says something. -/
def line : Reader Line := do
  if ← skip? ['[', '['] then
    let p ← path
    if ← skip? [']', ']'] then pure (.arrayHeader p) else failure
  else if ← skip? ['['] then
    let p ← path
    expect ']'
    pure (.header p)
  else
    let p ← path
    expect '='
    skipBlanks
    return .entry p (← value maxDepth)

/-- The lines of a document that say something. -/
def lines : Reader (List Line) :=
  loop (fun read => do
    skipLines
    if (← peek?).isNone then return .inr read.reverse
    let l ← line
    endOfLine
    return .inl (l :: read)) []

/-! ### Documents -/

/-- The document so far: its entries, and the path of the current table. -/
structure Draft where
  entries : Entries
  current : List String

namespace Draft

/-- Carries out a line. -/
def add (d : Draft) : Line → Option Draft
  | .entry p v =>
    (descend .implied (fun _ inner => assign p v inner) d.current .named d.entries).map
      fun entries => ⟨entries, d.current⟩
  | .header p =>
    (descend .implied (fun _ inner =>
      inner.update p.key fun
        | none => some (.table .named [])
        | some (.table .implied kept) => some (.table .named kept)
        | some _ => none) p.above .named d.entries).map
      fun entries => ⟨entries, p.above ++ [p.key]⟩
  | .arrayHeader p =>
    (descend .implied (fun _ inner =>
      inner.update p.key fun
        | none => some (.tables [] [])
        | some (.tables front last) => some (.tables (front ++ [last]) [])
        | some _ => none) p.above .named d.entries).map
      fun entries => ⟨entries, p.above ++ [p.key]⟩

end Draft

/-- The entries of a document, behind its byte order mark if it has one; nothing if it is not
valid. -/
def parse? (text : String) : Option Entries := do
  let cs :=
    match text.toList with
    | [] => []
    | c :: cs => if c = '\uFEFF' then cs else c :: cs
  let (lines, _) ← lines cs
  let draft ← lines.foldlM Draft.add ⟨[], []⟩
  return draft.entries

end Caret.Toml
