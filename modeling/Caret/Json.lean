/-
**JSON texts.**

The JSON that reports are written in: objects, strings, natural numbers and null.  Objects are laid
out over several lines, two spaces deeper for each level, with the fields in the order in which they
are given.  In strings the quote, the backslash and the control characters are escaped, by the
short escapes where there are some; all other characters stand for themselves.

Main definitions:

* `Caret.Json` — the values;
* `Caret.Json.escape`, `Caret.Json.quote` — a character and a string inside of quotes;
* `Caret.Json.render` — a value as text.

Main results:

* `Caret.Json.escape_of_plain` — a character that needs no escape stands for itself.
-/

set_option relaxedAutoImplicit false
set_option autoImplicit false

namespace Caret

/-- A JSON value. -/
inductive Json where
  | null
  | number (n : Nat)
  | string (s : String)
  | object (fields : List (String × Json))
  deriving Repr

namespace Json

/-! ### Strings -/

/-- A hexadecimal digit, in lower case. -/
def hexDigit (n : Nat) : Char := if n < 10 then Char.ofNat (48 + n) else Char.ofNat (87 + n)

/-- A character as it is written between quotes. -/
def escape (c : Char) : List Char :=
  if c = '"' then ['\\', '"']
  else if c = '\\' then ['\\', '\\']
  else if c = '\n' then ['\\', 'n']
  else if c = '\t' then ['\\', 't']
  else if c = '\r' then ['\\', 'r']
  else if c = '\x08' then ['\\', 'b']
  else if c = '\x0c' then ['\\', 'f']
  else if c.toNat < 0x20 then
    ['\\', 'u', '0', '0', hexDigit (c.toNat / 16), hexDigit (c.toNat % 16)]
  else [c]

/-- The characters that stand for themselves. -/
def isPlain (c : Char) : Bool := c != '"' && c != '\\' && decide (0x20 ≤ c.toNat)

/-- A character that needs no escape stands for itself. -/
theorem escape_of_plain {c : Char} (h : isPlain c = true) : escape c = [c] := by
  simp only [isPlain, Bool.and_eq_true, bne_iff_ne, ne_eq, decide_eq_true_eq] at h
  obtain ⟨⟨h₁, h₂⟩, h₃⟩ := h
  have hn : ∀ d : Char, d.toNat < 0x20 → c ≠ d := by
    rintro d hd rfl
    omega
  simp [escape, h₁, h₂, hn '\n' (by decide), hn '\t' (by decide), hn '\r' (by decide),
    hn '\x08' (by decide), hn '\x0c' (by decide), Nat.not_lt.2 h₃]

/-- A string between quotes. -/
def quote (s : String) : String := "\"" ++ String.ofList (s.toList.flatMap escape) ++ "\""

/-! ### Layout -/

/-- The indentation of a level. -/
def indent (level : Nat) : String := String.ofList (List.replicate (2 * level) ' ')

mutual

/-- A value as text, at a level of indentation. -/
def renderAt (level : Nat) : Json → String
  | null => "null"
  | number n => Nat.repr n
  | string s => quote s
  | object [] => "\x7b\x7d"
  | object (field :: fields) =>
    "\x7b\n" ++ renderFields (level + 1) (field :: fields) ++ "\n" ++ indent level ++ "\x7d"

/-- Fields as text, each on a line of its own. -/
def renderFields (level : Nat) : List (String × Json) → String
  | [] => ""
  | [(key, v)] => indent level ++ quote key ++ ": " ++ renderAt level v
  | (key, v) :: field :: fields =>
    indent level ++ quote key ++ ": " ++ renderAt level v ++ ",\n" ++
      renderFields level (field :: fields)

end

/-- A value as text. -/
def render (j : Json) : String := renderAt 0 j

end Json

end Caret
