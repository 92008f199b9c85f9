/-
**Numbers, dates and booleans of a TOML document.**

These are written without quotes, as one run of characters up to a blank or a mark of the document;
a date and a time may be parted by one space.  What a run means depends on the run as a whole.
Dates and times are those of the calendar, with a day that the month has.

Main definitions:

* `Caret.Toml.isDateTime` — is a run a date or a time?
* `Caret.Toml.isRunChar`, `Caret.Toml.scalarRun` — the run that comes next;
* `Caret.Toml.scalar` — the value that comes next.
-/

import Caret.Toml.Number

set_option relaxedAutoImplicit false
set_option autoImplicit false

namespace Caret.Toml

open Reader

/-! ### Dates and times -/

/-- A number of two digits. -/
def two? (a b : Char) : Option Nat :=
  if a.isDigit && b.isDigit then some (ofDigits 10 [a, b]) else none

/-- The number of days of a month. -/
def daysOf (year month : Nat) : Nat :=
  if month = 2 then
    if year % 4 = 0 ∧ (year % 100 ≠ 0 ∨ year % 400 = 0) then 29 else 28
  else if month ∈ [4, 6, 9, 11] then 30
  else 31

/-- Drops a date of the calendar from the front. -/
def date? : List Char → Option (List Char)
  | a :: b :: c :: d :: '-' :: e :: f :: '-' :: g :: h :: rest => do
    let century ← two? a b
    let year ← two? c d
    let month ← two? e f
    let day ← two? g h
    if 1 ≤ month ∧ month ≤ 12 ∧ 1 ≤ day ∧ day ≤ daysOf (100 * century + year) month then
      some rest
    else none
  | _ => none

/-- Drops the hours and minutes of a time from the front. -/
def minutes? : List Char → Option (List Char)
  | a :: b :: ':' :: c :: d :: rest => do
    let hour ← two? a b
    let minute ← two? c d
    if hour < 24 ∧ minute < 60 then some rest else none
  | _ => none

/-- Drops the fraction of a second from the front, if there is one. -/
def fraction? : List Char → Option (List Char)
  | '.' :: c :: rest => if c.isDigit then some (rest.dropWhile Char.isDigit) else none
  | '.' :: [] => none
  | rest => some rest

/-- Drops a time of the day from the front.  A minute may have a leap second, and the seconds may be
missing. -/
def time? (cs : List Char) : Option (List Char) := do
  match ← minutes? cs with
  | ':' :: a :: b :: rest =>
    let second ← two? a b
    if second ≤ 60 then fraction? rest else none
  | rest => some rest

/-- Is this the distance of a clock from universal time? -/
def isOffset : List Char → Bool
  | ['Z'] => true
  | ['z'] => true
  | '+' :: rest => minutes? rest == some []
  | '-' :: rest => minutes? rest == some []
  | _ => false

/-- Is the run a date, a time of the day, or a date with a time? -/
def isDateTime (cs : List Char) : Bool :=
  match date? cs with
  | some [] => true
  | some (c :: rest) =>
    (c == 'T' || c == 't' || c == ' ') &&
      match time? rest with
      | some [] => true
      | some offset => isOffset offset
      | none => false
  | none => time? cs == some []

/-! ### Values -/

/-- The characters of a run: all but blanks, ends of lines, and the marks around values. -/
def isRunChar (c : Char) : Bool :=
  !isBlank c && c ∉ ['\n', '\r', '#', '=', ',', '[', ']', '\x7b', '\x7d']

/-- The run that comes next; after a date, one space and a digit continue it. -/
def scalarRun : Reader (List Char) := do
  let first ← run isRunChar
  fun cs =>
    match date? first, cs with
    | some [], ' ' :: c :: rest =>
      if c.isDigit then
        some (first ++ ' ' :: c :: rest.takeWhile isRunChar, rest.dropWhile isRunChar)
      else some (first, cs)
    | _, _ => some (first, cs)

/-- The number, date or boolean that comes next. -/
def scalar : Reader Value := do
  let cs ← scalarRun
  if cs = "true".toList then pure (.boolean true)
  else if cs = "false".toList then pure (.boolean false)
  else
    match number? cs with
    | some v => pure v
    | none => if isDateTime cs then pure (.dateTime (String.ofList cs)) else failure

end Caret.Toml
