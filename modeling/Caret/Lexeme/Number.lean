/-
**Number literals.**

A number has an integer part, which may open with a mark that sets the radix, a fraction, an exponent
and a suffix that makes it imaginary; all but one of them may be missing.  Each part takes the
longest run of its characters, so a number is read even where it is malformed: `1e`, `0x` and
`08.` are numbers.  Underscores may stand among the digits.

* Without a mark the radix is ten; the fraction follows a point, the exponent an `e`.
* After `0x` the digits are hexadecimal; the fraction follows a point, the exponent a `p`.
* After `0o` or `0b` come decimal digits, and there is neither fraction nor exponent.

Main definitions:

* `Caret.Number.Radix` — how the digits are read, and what may follow them;
* `Caret.Number`, `Caret.Number.read` — the parts of a number, and reading it off a text;
* `Caret.Number.text`, `Caret.Number.kind` — the parts laid end to end, and the kind they give.

Main results:

* `Caret.Number.whole_cut` — the number and the rest are the text;
* `Caret.Number.taken_cut_ne_nil` — a digit, or a point before a digit, starts a number.
-/

import Caret.Text.Cut
import Caret.Token.Kind

set_option relaxedAutoImplicit false
set_option autoImplicit false

namespace Caret

/-- The parts of a number literal, each with the characters that introduce it. -/
structure Number where
  integer : List Char
  fraction : List Char
  exponent : List Char
  suffix : List Char
  deriving DecidableEq, Repr

namespace Number

/-- A number laid out as text. -/
def text (n : Number) : List Char := n.integer ++ n.fraction ++ n.exponent ++ n.suffix

/-- The suffix makes a number imaginary; a fraction or an exponent makes it a float. -/
def kind (n : Number) : Kind :=
  if n.suffix ≠ [] then .imag
  else if n.fraction ≠ [] ∨ n.exponent ≠ [] then .float
  else .int

/-! ### Radix -/

/-- The radix of a number, as far as the reading of its parts depends on it. -/
inductive Radix where
  | decimal
  | hexadecimal
  /-- Octal or binary: decimal digits are read for both. -/
  | small
  deriving DecidableEq, Repr

/-- The radix that a character after a leading zero sets. -/
def Radix.ofMark? (c : Char) : Option Radix :=
  if c = 'x' ∨ c = 'X' then some .hexadecimal
  else if c = 'o' ∨ c = 'O' ∨ c = 'b' ∨ c = 'B' then some .small
  else none

/-- A decimal digit or an underscore. -/
def isDigit (c : Char) : Bool := c == '_' || c.isDigit

/-- A hexadecimal digit or an underscore. -/
def isHexDigit (c : Char) : Bool :=
  isDigit c || ('a' ≤ c && c ≤ 'f') || ('A' ≤ c && c ≤ 'F')

/-- The characters that may stand among the digits. -/
def Radix.isDigit : Radix → Char → Bool
  | hexadecimal => Number.isHexDigit
  | _ => Number.isDigit

/-- The characters that introduce an exponent. -/
def Radix.isExponentMark : Radix → Char → Bool
  | decimal, c => c == 'e' || c == 'E'
  | hexadecimal, c => c == 'p' || c == 'P'
  | small, _ => false

/-! ### Parts -/

/-- The radix and the integer part, with its radix mark. -/
def cutInteger : List Char → Radix × Cut
  | '0' :: mark :: cs =>
    match Radix.ofMark? mark with
    | some radix => (radix, (Cut.run radix.isDigit cs).keep ['0', mark])
    | none => (.decimal, .run isDigit ('0' :: mark :: cs))
  | cs => (.decimal, .run isDigit cs)

/-- The fraction, with its point. -/
def cutFraction (radix : Radix) : List Char → Cut
  | '.' :: cs =>
    if radix = .small then .nothing ('.' :: cs) else (Cut.run radix.isDigit cs).keep ['.']
  | cs => .nothing cs

/-- The sign and the digits of an exponent. -/
def cutSigned : List Char → Cut
  | [] => .nothing []
  | c :: cs =>
    if c = '+' ∨ c = '-' then (Cut.run isDigit cs).keep [c] else .run isDigit (c :: cs)

/-- The exponent, with its mark and sign. -/
def cutExponent (radix : Radix) : List Char → Cut
  | [] => .nothing []
  | c :: cs => if radix.isExponentMark c then (cutSigned cs).keep [c] else .nothing (c :: cs)

/-- The suffix of an imaginary number. -/
def cutSuffix : List Char → Cut
  | 'i' :: cs => ⟨['i'], cs⟩
  | cs => .nothing cs

/-- The number at the front of a text, and the rest. -/
def read (cs : List Char) : Number × List Char :=
  let (radix, integer) := cutInteger cs
  let fraction := cutFraction radix integer.rest
  let exponent := cutExponent radix fraction.rest
  let suffix := cutSuffix exponent.rest
  (⟨integer.taken, fraction.taken, exponent.taken, suffix.taken⟩, suffix.rest)

/-- The text of the number at the front of a text, and the rest. -/
def cut (cs : List Char) : Cut := ⟨(read cs).1.text, (read cs).2⟩

/-! ### Nothing is lost -/

@[simp] theorem whole_cutInteger (cs : List Char) : (cutInteger cs).2.whole = cs := by
  unfold cutInteger
  split
  · split <;> simp
  · simp

@[simp] theorem whole_cutFraction (radix : Radix) (cs : List Char) :
    (cutFraction radix cs).whole = cs := by
  unfold cutFraction
  split
  · split <;> simp
  · simp

@[simp] theorem whole_cutSigned (cs : List Char) : (cutSigned cs).whole = cs := by
  unfold cutSigned
  split
  · simp
  · split <;> simp

@[simp] theorem whole_cutExponent (radix : Radix) (cs : List Char) :
    (cutExponent radix cs).whole = cs := by
  unfold cutExponent
  split
  · simp
  · split <;> simp

@[simp] theorem whole_cutSuffix (cs : List Char) : (cutSuffix cs).whole = cs := by
  unfold cutSuffix
  split <;> simp [Cut.whole]

/-- The number and the rest laid end to end are the text. -/
@[simp] theorem whole_cut (cs : List Char) : (cut cs).whole = cs := by
  have h₁ := whole_cutInteger cs
  have h₂ := whole_cutFraction (cutInteger cs).1 (cutInteger cs).2.rest
  have h₃ := whole_cutExponent (cutInteger cs).1
    (cutFraction (cutInteger cs).1 (cutInteger cs).2.rest).rest
  have h₄ := whole_cutSuffix (cutExponent (cutInteger cs).1
    (cutFraction (cutInteger cs).1 (cutInteger cs).2.rest).rest).rest
  simp only [Cut.whole] at h₁ h₂ h₃ h₄
  simp only [Cut.whole, cut, read, text, List.append_assoc]
  rw [h₄, h₃, h₂, h₁]

/-! ### Where a number starts -/

theorem taken_cutInteger_of_digit {c : Char} (cs : List Char) (h : c.isDigit = true) :
    (cutInteger (c :: cs)).2.taken ≠ [] := by
  have hc : isDigit c = true := by simp [isDigit, h]
  unfold cutInteger
  split
  · split <;> simp [Cut.run, List.takeWhile, isDigit]
  · simp [Cut.run, List.takeWhile, hc]

/-- A digit, or a point before a digit, starts a number. -/
def starts : List Char → Bool
  | c :: cs => c.isDigit || (c == '.' && cs.head?.any Char.isDigit)
  | [] => false

theorem taken_cut_ne_nil {cs : List Char} (h : starts cs = true) : (cut cs).taken ≠ [] := by
  match cs with
  | [] => simp [starts] at h
  | c :: cs =>
      simp only [cut, read, text, List.append_assoc, ne_eq, List.append_eq_nil_iff, not_and]
      intro hw hf
      simp only [starts, Bool.or_eq_true, Bool.and_eq_true, beq_iff_eq] at h
      rcases h with h | ⟨rfl, h⟩
      · exact absurd hw (taken_cutInteger_of_digit cs h)
      · simp [cutInteger, cutFraction, Cut.run, List.takeWhile, List.dropWhile, isDigit] at hf

end Number

end Caret
