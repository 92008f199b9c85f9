/-
**Reading a command line.**

An option is written `--name value` or `--name=value`; behind `--` everything is a source.  A word
that starts with a dash is an option or a flag, except for a dash alone.

Words are read from left to right and the first fault ends the reading.  A word that is a value or a
source is only looked into when the next word turns out to be an option, a flag or a source, or at
the end.  So an option of an unknown name is found before a fault in the value in front of it.  What
concerns several words, options that exclude or require each other and the missing source, is
examined last.

Main definitions:

* `Caret.size?`, `Caret.ordinal?` — the numbers that options take;
* `Caret.Given` — the values given so far;
* `Caret.WordForm` — what a word looks like;
* `Caret.Reading`, `Caret.Reading.add` — the words read so far, and reading one more;
* `Caret.Given.target`, `Caret.Given.arguments` — what the values say together;
* `Caret.Arguments.parse` — reading a command line.
-/

import Caret.CommandLine.Arguments

set_option relaxedAutoImplicit false
set_option autoImplicit false

namespace Caret

/-! ### Numbers -/

/-- A number in decimal digits, at least one. -/
def digits? (cs : List Char) : Option Nat :=
  if cs ≠ [] ∧ cs.all Char.isDigit then
    some (cs.foldl (fun n c => 10 * n + (c.toNat - '0'.toNat)) 0)
  else none

/-- A number of 64 bits, with a plus sign or none. -/
def size? (word : String) : Option Nat :=
  let cs :=
    match word.toList with
    | '+' :: cs => cs
    | cs => cs
  (digits? cs).filter fun n => decide (n < Nat.pow 2 64)

/-- A number of 32 bits, with a sign or none; only zero takes the minus. -/
def ordinal? (word : String) : Option Nat :=
  match word.toList with
  | '+' :: cs => (digits? cs).filter fun n => decide (n < Nat.pow 2 32)
  | '-' :: cs => (digits? cs).filter fun n => decide (n = 0)
  | cs => (digits? cs).filter fun n => decide (n < Nat.pow 2 32)

/-! ### Reading words -/

/-- The values given so far. -/
structure Given where
  file : Option String
  offset : Option Nat
  line : Option Nat
  column : Option Nat
  config : Option String
  preferences : Preferences
  deriving DecidableEq, Repr

/-- Nothing given. -/
def Given.nothing : Given := ⟨none, none, none, none, none, .nothing⟩

/-- A value for an option that has none yet. -/
def Given.fill {α : Type} (o : Opt) (old : Option α) (new : Except ArgumentError α) :
    Except ArgumentError (Option α) :=
  match old with
  | some _ => .error (.conflict o.name)
  | none => new.map some

/-- A value, or the error for a word that is none. -/
def Given.orError {α : Type} (e : ArgumentError) : Option α → Except ArgumentError α
  | some x => .ok x
  | none => .error e

/-- A path, which is not empty. -/
def Given.path (name word : String) : Except ArgumentError String :=
  if word = "" then .error (.invalidValue name) else .ok word

/-- Gives a value to an option. -/
def Given.setOpt (g : Given) (o : Opt) (word : String) : Except ArgumentError Given :=
  let p := g.preferences
  let number {α : Type} : Option α → Except ArgumentError α := orError (.malformedNumber o.name)
  match o with
  | .offset => do return { g with offset := ← fill o g.offset (number (size? word)) }
  | .line => do return { g with line := ← fill o g.line (number (ordinal? word)) }
  | .column => do return { g with column := ← fill o g.column (number (ordinal? word)) }
  | .config => do return { g with config := ← fill o g.config (path o.name word) }
  | .format => do
    let format := orError (.invalidValue o.name) (Report.Format.ofName? word)
    return { g with preferences := { p with format := ← fill o p.format format } }
  | .maxInputBytes => do
    let limit ← fill o p.maxInputBytes (number (size? word))
    return { g with preferences := { p with maxInputBytes := limit } }
  | .logFilter => do
    return { g with preferences := { p with logFilter := ← fill o p.logFilter (.ok word) } }

/-- What is still to be looked into. -/
inductive Pending where
  /-- An option, and its value if it has come. -/
  | option (o : Opt) (value : Option String)
  /-- A source. -/
  | file (word : String)
  deriving DecidableEq, Repr

/-- The words read so far. -/
structure Reading where
  given : Given
  pending : Option Pending
  /-- Is every further word a source? -/
  onlyFiles : Bool
  deriving DecidableEq, Repr

/-- What a word looks like. -/
inductive WordForm where
  /-- Two dashes alone. -/
  | separator
  /-- Two dashes and a name, and a value behind an equals sign. -/
  | long (name : String) (value : Option String)
  /-- One dash and letters, the first of which decides. -/
  | short (letter : Char)
  /-- Anything else. -/
  | plain
  deriving DecidableEq, Repr

/-- The form of a word. -/
def WordForm.ofWord (word : String) : WordForm :=
  match word.toList with
  | ['-', '-'] => separator
  | '-' :: '-' :: cs =>
    let name := String.ofList (cs.takeWhile (· != '='))
    match cs.dropWhile (· != '=') with
    | [] => long name none
    | _ :: value => long name (some (String.ofList value))
  | '-' :: c :: _ => short c
  | _ => plain

namespace Reading

/-- Nothing read. -/
def start : Reading := ⟨.nothing, none, false⟩

/-- Looks into what is pending. -/
def settle (r : Reading) : Except ArgumentError Given :=
  match r.pending with
  | none => .ok r.given
  | some (.option o none) => .error (.invalidValue o.name)
  | some (.option o (some word)) => r.given.setOpt o word
  | some (.file word) => do return { r.given with file := some (← Given.path "FILE" word) }

/-- Is there a source already? -/
def hasFile (r : Reading) : Bool :=
  r.given.file.isSome ||
    match r.pending with
    | some (.file _) => true
    | _ => false

/-- A run that is not to be started, once what is pending is in order. -/
def stop (r : Reading) (s : Stop) : Except Stop Reading :=
  match r.settle with
  | .ok _ => .error s
  | .error e => .error (.rejected e)

/-- The reading after what is pending is looked into. -/
def settled (r : Reading) (next : Given → Except ArgumentError Reading) : Except Stop Reading :=
  match r.settle >>= next with
  | .ok r => .ok r
  | .error e => .error (.rejected e)

/-- Reads a source. -/
def addFile (r : Reading) (word : String) : Except Stop Reading :=
  if r.hasFile then .error (.rejected (.unknownArgument word))
  else r.settled fun g => .ok { r with given := g, pending := some (.file word) }

/-- Reads a flag that ends the reading. -/
def addFlag (r : Reading) (name : String) (value : Option String) (s : Stop) :
    Except Stop Reading :=
  match value with
  | some _ => .error (.rejected (.unneededValue name))
  | none => r.stop s

/-- Reads an option. -/
def addOpt (r : Reading) (o : Opt) (value : Option String) : Except Stop Reading :=
  r.settled fun g =>
    match value with
    | none => .ok { r with given := g, pending := some (.option o none) }
    | some word => do return { r with given := ← g.setOpt o word, pending := none }

/-- Reads a word. -/
def add (r : Reading) (word : String) : Except Stop Reading :=
  if r.onlyFiles then r.addFile word
  else
    match WordForm.ofWord word with
    | .separator => .ok { r with onlyFiles := true }
    | .short 'h' => r.stop .help
    | .short 'V' => r.stop .version
    | .short _ => .error (.rejected (.unknownArgument word))
    | .long "help" value => r.addFlag "help" value .help
    | .long "version" value => r.addFlag "version" value .version
    | .long name value =>
      match Opt.ofName? name with
      | some o => r.addOpt o value
      | none => .error (.rejected (.unknownArgument word))
    | .plain =>
      match r.pending with
      | some (.option o none) => .ok { r with pending := some (.option o (some word)) }
      | _ => r.addFile word

end Reading

/-! ### The command line as a whole -/

/-- Where the cursor is, if the options for it agree.  An offset excludes a line and a column, which
require each other. -/
def Given.target (g : Given) : Except ArgumentError Target :=
  match g.offset, g.line, g.column with
  | none, none, none => .ok .ending
  | some n, none, none => .ok (.offset n)
  | none, some line, some column => .ok (.place line column)
  | some _, _, _ => .error (.conflict Opt.offset.name)
  | none, some _, none => .error (.missing Opt.column.name)
  | none, none, some _ => .error (.missing Opt.line.name)

/-- What the values given say together.  Options that exclude each other are found first. -/
def Given.arguments (g : Given) : Except ArgumentError Arguments :=
  match g.target, g.file with
  | .ok target, some word => .ok ⟨.ofWord word, target, g.config, g.preferences⟩
  | .ok _, none => .error (.missing "FILE")
  | .error e, _ => .error e

/-- Reads a command line. -/
def Arguments.parse (words : List String) : Except Stop Arguments :=
  match words.foldlM Reading.add .start with
  | .error s => .error s
  | .ok r =>
    match r.settle >>= Given.arguments with
    | .ok a => .ok a
    | .error e => .error (.rejected e)

end Caret
