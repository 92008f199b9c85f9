/-
**Reading text step by step.**

A reader takes what it reads off the front of a text, or refuses the text.  Readers are put together
by doing one after the other and by repeating a step until it is done.

Main definitions:

* `Caret.Toml.Reader` — the readers;
* `Caret.Toml.Reader.next`, `Caret.Toml.Reader.peek?`, `Caret.Toml.Reader.expect`,
  `Caret.Toml.Reader.skip?`, `Caret.Toml.Reader.run` — reading characters;
* `Caret.Toml.Reader.loop` — repeating a step;
* `Caret.Toml.skipBlanks`, `Caret.Toml.skipLines`, `Caret.Toml.endOfLine` — what stands between
  the parts of a document.
-/

set_option relaxedAutoImplicit false
set_option autoImplicit false

namespace Caret.Toml

/-- A reader of values of a type: the value and the text that is left, or nothing if the text is
refused. -/
abbrev Reader := StateT (List Char) Option

namespace Reader

/-- The next character. -/
def next : Reader Char := fun
  | [] => none
  | c :: cs => some (c, cs)

/-- The next character, left where it is; nothing at the end of the text. -/
def peek? : Reader (Option Char) := fun cs => some (cs.head?, cs)

/-- The character `c`, which has to come next. -/
def expect (c : Char) : Reader Unit := do
  if (← next) = c then pure () else failure

/-- Skips `text` if it comes next, and says whether it did. -/
def skip? (text : List Char) : Reader Bool := fun cs =>
  if text.isPrefixOf cs then some (true, cs.drop text.length) else some (false, cs)

/-- The longest run of characters of a class. -/
def run (p : Char → Bool) : Reader (List Char) := fun cs => some (cs.takeWhile p, cs.dropWhile p)

/-- A step repeated at most `fuel` times, until it gives a result. -/
def loopWithin {σ α : Type} (step : σ → Reader (σ ⊕ α)) : Nat → σ → Reader α
  | 0, _ => failure
  | fuel + 1, s => do
    match ← step s with
    | .inl s => loopWithin step fuel s
    | .inr a => pure a

/-- A step repeated until it gives a result.  A step that is to be repeated reads something, so the
characters that are left bound the number of steps. -/
def loop {σ α : Type} (step : σ → Reader (σ ⊕ α)) (s : σ) : Reader α := fun cs =>
  loopWithin step (cs.length + 1) s cs

end Reader

open Reader

/-! ### Between the parts of a document -/

/-- A space or a tab. -/
def isBlank (c : Char) : Bool := c == ' ' || c == '\t'

/-- The characters that a comment or a string on one line may hold: all but the control characters,
of which the tab alone is allowed. -/
def isText (c : Char) : Bool := c == '\t' || (0x20 ≤ c.toNat && c.toNat != 0x7F)

/-- Skips spaces and tabs. -/
def skipBlanks : Reader Unit := do
  let _ ← run isBlank

/-- Skips a comment, if one comes next. -/
def skipComment : Reader Unit := do
  if ← skip? ['#'] then
    let _ ← run isText

/-- Skips a newline, if one comes next, and says whether one did. -/
def skipNewline? : Reader Bool := do
  if ← skip? ['\n'] then pure true else skip? ['\r', '\n']

/-- Skips blanks, comments and newlines. -/
def skipLines : Reader Unit :=
  loop (fun _ => do
    skipBlanks
    skipComment
    if ← skipNewline? then pure (.inl ()) else pure (.inr ())) ()

/-- What may follow on a line that says something: blanks and a comment, up to the end of the
line. -/
def endOfLine : Reader Unit := do
  skipBlanks
  skipComment
  if (← peek?).isNone then pure ()
  else if ← skipNewline? then pure ()
  else failure

end Caret.Toml
