/-
**What a command line says.**

A run takes one source, options with a value each, and the flags that ask for help or for the
version.  The cursor is at an offset, at a line and column, or at the end of the source if neither
is given.

Main definitions:

* `Caret.Opt` — the options that take a value;
* `Caret.Source`, `Caret.Target`, `Caret.Arguments` — where the source comes from, where the cursor
  is, and all that a command line says;
* `Caret.ArgumentError`, `Caret.Stop` — what is wrong with a command line, and why it starts no run.

Main results:

* `Caret.Opt.ofName?_eq_some_iff` — an option has the name that it is found by.
-/

import Caret.Settings

set_option relaxedAutoImplicit false
set_option autoImplicit false

namespace Caret

/-! ### Options -/

/-- The options that take a value. -/
inductive Opt where
  | offset | line | column | format | config | maxInputBytes | logFilter
  deriving DecidableEq, Repr

/-- The name of an option, without its dashes. -/
def Opt.name : Opt → String
  | offset => "offset"
  | line => "line"
  | column => "column"
  | format => "format"
  | config => "config"
  | maxInputBytes => "max-input-bytes"
  | logFilter => "log-filter"

/-- Every option. -/
def Opt.all : List Opt := [offset, line, column, format, config, maxInputBytes, logFilter]

/-- The option of a name. -/
def Opt.ofName? (name : String) : Option Opt := all.find? fun o => o.name == name

/-- An option has the name that it is found by. -/
theorem Opt.ofName?_eq_some_iff {name : String} {o : Opt} :
    ofName? name = some o ↔ name = o.name := by
  constructor
  · intro h
    have := List.find?_some h
    exact (beq_iff_eq.1 this).symm
  · rintro rfl
    cases o <;> decide

/-! ### Arguments -/

/-- Where the source comes from. -/
inductive Source where
  | standardInput
  | file (path : String)
  deriving DecidableEq, Repr

/-- The source that a word names: a dash is the standard input. -/
def Source.ofWord (word : String) : Source := if word = "-" then standardInput else file word

/-- Where the cursor is. -/
inductive Target where
  /-- At the end of the source. -/
  | ending
  /-- At a byte offset. -/
  | offset (n : Nat)
  /-- At a line and column. -/
  | place (line column : Nat)
  deriving DecidableEq, Repr

/-- All that a command line says. -/
structure Arguments where
  source : Source
  target : Target
  /-- The path of the configuration file. -/
  config : Option String
  preferences : Preferences
  deriving DecidableEq, Repr

/-! ### Faults -/

/-- What is wrong with a command line. -/
inductive ArgumentError where
  /-- There is no such option, or the word is one source too many. -/
  | unknownArgument (word : String)
  /-- An option lacks its value, or the value is none of those allowed. -/
  | invalidValue (name : String)
  /-- A value is no number of the kind that the option takes. -/
  | malformedNumber (name : String)
  /-- An option is given twice, or with one that excludes it. -/
  | conflict (name : String)
  /-- The source is missing, or an option that another one requires. -/
  | missing (name : String)
  /-- A flag has a value. -/
  | unneededValue (name : String)
  deriving DecidableEq, Repr

/-- The wording of an error. -/
def ArgumentError.message : ArgumentError → String
  | unknownArgument word => "unexpected argument '" ++ word ++ "'"
  | invalidValue name => "missing or invalid value for '" ++ name ++ "'"
  | malformedNumber name => "the value for '" ++ name ++ "' is not a number in range"
  | conflict name => "'" ++ name ++ "' cannot be used here"
  | missing name => "'" ++ name ++ "' is required but was not given"
  | unneededValue name => "'" ++ name ++ "' takes no value"

/-- Why a command line starts no run. -/
inductive Stop where
  | help
  | version
  | rejected (e : ArgumentError)
  deriving DecidableEq, Repr

/-- The exit code: asking for help or for the version is no failure. -/
def Stop.exitCode : Stop → Nat
  | help => 0
  | version => 0
  | rejected _ => 2

end Caret
