/-
**Strings and keys of a TOML document.**

Strings stand between double quotes, with escapes, or between single quotes, as they are; both kinds
also come with three quotes on each side, and may then span lines.  A newline right behind three
opening quotes does not count.  Up to two quotes may stand in front of three closing ones.

Keys are bare words or strings on one line, and periods make paths of them.

Main definitions:

* `Caret.Toml.escape` — what follows a backslash;
* `Caret.Toml.basicLine`, `Caret.Toml.literalLine`, `Caret.Toml.basicText`,
  `Caret.Toml.literalText` — the four kinds of string, behind their opening quotes;
* `Caret.Toml.string?` — a string, if one starts here;
* `Caret.Toml.Path`, `Caret.Toml.maxKeys`, `Caret.Toml.path` — a key with the keys that lead to
  it, and how many these may be.
-/

import Caret.Toml.Reader

set_option relaxedAutoImplicit false
set_option autoImplicit false

namespace Caret.Toml

open Reader

/-! ### Escapes -/

/-- The value of a hexadecimal digit. -/
def hexValue? (c : Char) : Option Nat :=
  if c.isDigit then some (c.toNat - '0'.toNat)
  else if 'a' ≤ c ∧ c ≤ 'f' then some (c.toNat - 'a'.toNat + 10)
  else if 'A' ≤ c ∧ c ≤ 'F' then some (c.toNat - 'A'.toNat + 10)
  else none

/-- A number of `count` hexadecimal digits behind the number `value`. -/
def hexNumber : Nat → Nat → Reader Nat
  | 0, value => pure value
  | count + 1, value => do
    match hexValue? (← next) with
    | some digit => hexNumber count (16 * value + digit)
    | none => failure

/-- The character whose code point has `count` hexadecimal digits. -/
def codePoint (count : Nat) : Reader Char := do
  let n ← hexNumber count 0
  if n.isValidChar then pure (Char.ofNat n) else failure

/-- The character that an escape stands for, behind its backslash. -/
def escape : Reader Char := do
  match ← next with
  | 'b' => pure '\x08'
  | 't' => pure '\t'
  | 'n' => pure '\n'
  | 'f' => pure '\x0c'
  | 'r' => pure '\r'
  | 'e' => pure '\x1b'
  | '"' => pure '"'
  | '\\' => pure '\\'
  | 'x' => codePoint 2
  | 'u' => codePoint 4
  | 'U' => codePoint 8
  | _ => failure

/-! ### Strings on one line -/

/-- The rest of a string in double quotes.  What is read is kept last character first. -/
def basicLine : Reader (List Char) :=
  loop (fun read => do
    match ← next with
    | '"' => pure (.inr read.reverse)
    | '\\' => return .inl ((← escape) :: read)
    | c => if isText c then pure (.inl (c :: read)) else failure) []

/-- The rest of a string in single quotes. -/
def literalLine : Reader (List Char) := do
  let read ← run fun c => isText c && c != '\''
  expect '\''
  pure read

/-! ### Strings over several lines -/

/-- A run of quotes in a string closed by three of them, where one quote is read already: how many
of them belong to the string, and whether the string ends.  Five quotes at most are read. -/
def quotes (quote : Char) : Reader (Nat × Bool) := fun cs =>
  let count := ((cs.take 4).takeWhile (· == quote)).length
  let ends := 2 ≤ count
  some ((if ends then count - 2 else count + 1, ends), cs.drop count)

/-- A character of a string over several lines, added to what is read.  A carriage return stands
only in front of a newline. -/
def lineChar (c : Char) (read : List Char) : Reader (List Char) := do
  if c = '\n' ∨ isText c then pure (c :: read)
  else if c = '\r' then
    expect '\n'
    pure ('\n' :: c :: read)
  else failure

/-- Skips the end of the line behind a backslash and all blanks and newlines that follow, if the
backslash stands at the end of its line, and says whether it did. -/
def skipLineEnd? : Reader Bool := fun cs =>
  match skipNewline? (cs.dropWhile isBlank) with
  | some (true, rest) =>
    (loop (fun _ => do
      skipBlanks
      if ← skipNewline? then pure (.inl ()) else pure (.inr true)) ()) rest
  | _ => some (false, cs)

/-- The rest of a string in three double quotes. -/
def basicText : Reader (List Char) := do
  let _ ← skipNewline?
  loop (fun read => do
    match ← next with
    | '"' =>
      let (count, ends) ← quotes '"'
      let read := List.replicate count '"' ++ read
      pure (if ends then .inr read.reverse else .inl read)
    | '\\' => if ← skipLineEnd? then pure (.inl read) else return .inl ((← escape) :: read)
    | c => return .inl (← lineChar c read)) []

/-- The rest of a string in three single quotes. -/
def literalText : Reader (List Char) := do
  let _ ← skipNewline?
  loop (fun read => do
    match ← next with
    | '\'' =>
      let (count, ends) ← quotes '\''
      let read := List.replicate count '\'' ++ read
      pure (if ends then .inr read.reverse else .inl read)
    | c => return .inl (← lineChar c read)) []

/-- A string of any kind; nothing is read where none starts. -/
def string? : Reader (Option String) := do
  if ← skip? ['"', '"', '"'] then return some (String.ofList (← basicText))
  else if ← skip? ['"'] then return some (String.ofList (← basicLine))
  else if ← skip? ['\'', '\'', '\''] then return some (String.ofList (← literalText))
  else if ← skip? ['\''] then return some (String.ofList (← literalLine))
  else pure none

/-! ### Keys -/

/-- The characters of a bare key. -/
def isBare (c : Char) : Bool := c.isAlphanum || c == '_' || c == '-'

/-- A key without periods. -/
def simpleKey : Reader String := do
  if ← skip? ['"'] then return String.ofList (← basicLine)
  else if ← skip? ['\''] then return String.ofList (← literalLine)
  else
    match ← run isBare with
    | [] => failure
    | key => pure (String.ofList key)

/-- A key, and the keys that lead to its table. -/
structure Path where
  above : List String
  key : String
  deriving DecidableEq, Repr

/-- How many keys a path may have. -/
def maxKeys : Nat := 80

/-- Keys joined by periods, with the blanks around them. -/
def path : Reader Path :=
  loop (fun above => do
    skipBlanks
    let key ← simpleKey
    skipBlanks
    if ← skip? ['.'] then
      if above.length + 1 < maxKeys then pure (.inl (above ++ [key])) else failure
    else pure (.inr ⟨above, key⟩)) []

end Caret.Toml
