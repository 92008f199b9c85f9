/-
**Runs.**

A run reads the configuration file, if there is one, and the source, finds the cursor in it, and
writes the report.  It ends with the first thing that fails, in this order: the configuration file,
the settings, the source, its length, the cursor.

Reading is left to whoever starts the run, in whatever way it takes place.

Main definitions:

* `Caret.Failure`, `Caret.Failure.message` — what a run can fail with, and its wording;
* `Caret.Settings.gather`, `Caret.Settings.admit`, `Caret.Target.locate` — the settings, the source
  and the cursor, or the failure;
* `Caret.Arguments.report` — the report on a source that has been read;
* `Caret.run`, `Caret.runIn` — a run, and a run in a directory tree.
-/

import Caret.CommandLine.Reading
import Caret.CommandLine.Directory

set_option relaxedAutoImplicit false
set_option autoImplicit false

namespace Caret

/-! ### Failures -/

/-- What a run can fail with. -/
inductive Failure where
  /-- The configuration file cannot be read. -/
  | configUnreadable (path : String) (e : ReadError)
  /-- The configuration file is not valid. -/
  | configInvalid (path : String)
  /-- The preferences make no settings. -/
  | settings (e : SettingsError)
  /-- The source cannot be read. -/
  | sourceUnreadable (source : Source) (e : ReadError)
  /-- The source is too long. -/
  | tooLong (bytes limit : Nat)
  /-- The line and column are no place in the source. -/
  | noSuchPlace (line column : Nat) (e : PositionError)
  deriving DecidableEq, Repr

/-- How an invalid configuration is reported, given what is wrong with the document. -/
def invalidConfig (detail : String) : String := "Invalid config file: " ++ detail

/-- The wording of a failure, from the outside to the cause; `detail` says what is wrong with an
invalid document. -/
def Failure.messageWith (detail : String) : Failure → String
  | configUnreadable path e => "Failed to read config file '" ++ path ++ "': " ++ e.message
  | configInvalid path => "Failed to load '" ++ path ++ "': " ++ invalidConfig detail
  | settings e => e.message
  | sourceUnreadable .standardInput e => "Failed to read source from stdin: " ++ e.message
  | sourceUnreadable (.file path) e => "Failed to read file '" ++ path ++ "': " ++ e.message
  | tooLong bytes limit =>
    "Input is " ++ Nat.repr bytes ++ " bytes, over the limit of " ++ Nat.repr limit ++
      " bytes (see --max-input-bytes)"
  | noSuchPlace line column e =>
    "Invalid cursor position " ++ Nat.repr line ++ ":" ++ Nat.repr column ++ ": " ++ e.message

/-- The wording of a failure. -/
def Failure.message (f : Failure) : String := f.messageWith "the document cannot be read as settings"

/-! ### Stages -/

/-- The settings of a run, from the command line and from what reading the configuration file gave,
if there is one. -/
def Settings.gather (flags : Preferences) :
    Option (String × Except ReadError String) → Except Failure Settings
  | none => (resolve flags).mapError .settings
  | some (path, .error e) => .error (.configUnreadable path e)
  | some (path, .ok text) =>
    match Preferences.parse? text with
    | none => .error (.configInvalid path)
    | some file => (resolve (flags.orElse file)).mapError .settings

/-- The text of a source, from what reading it gave, if it is not too long. -/
def Settings.admit (s : Settings) (source : Source) :
    Except ReadError String → Except Failure String
  | .error e => .error (.sourceUnreadable source e)
  | .ok text =>
    if s.maxInputBytes < utf8Length text.toList then
      .error (.tooLong (utf8Length text.toList) s.maxInputBytes)
    else .ok text

/-- The offset of the cursor in a source.  An offset past the end means the end. -/
def Target.locate (source : String) : Target → Except Failure Nat
  | .ending => .ok (utf8Length source.toList)
  | .offset n => .ok (min n (utf8Length source.toList))
  | .place line column => (offsetAt source.toList line column).mapError (.noSuchPlace line column)

/-- The report on a source, from what reading it gave. -/
def Arguments.report (a : Arguments) (s : Settings) (content : Except ReadError String) :
    Except Failure String := do
  let source ← s.admit a.source content
  let cursor ← a.target.locate source
  return (Report.ofCursor source cursor).render s.format

/-! ### The run -/

/-- A run: the report, or what it fails with.  Sources are read by `read`; nothing is read once
something has failed. -/
def run {m : Type → Type} [Monad m] (read : Source → m (Except ReadError String)) (a : Arguments) :
    m (Except Failure String) := do
  let config ←
    match a.config with
    | none => pure none
    | some path => do pure (some (path, ← read (.file path)))
  match Settings.gather a.preferences config with
  | .error f => pure (.error f)
  | .ok s => do return a.report s (← read a.source)

/-- A run in a directory tree that is held as data. -/
def runIn (d : Directory) (standardInput : ByteArray) (a : Arguments) : Except Failure String :=
  Id.run (run (fun
    | .standardInput => pure (readText standardInput)
    | .file path => pure (d.read path)) a)

end Caret
