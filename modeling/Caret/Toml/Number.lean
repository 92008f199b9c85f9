/-
**Numbers of a TOML document.**

An integer is decimal, or hexadecimal, octal or binary without a sign; a float is decimal, has a
fraction or an exponent, or is infinite or not a number.  Underscores stand between digits, and one
may follow the sign.  A decimal number does not start with a zero, unless the zero is all that
stands in front of its fraction and its exponent.

How a number is written is judged apart from its value.  Behind an underscore a decimal integer lets
characters through that are no digits, and behind a prefix for the base the digits may be missing;
such a number has no value, and neither has one out of range.  The range of integers is that of 128
bits, signed or unsigned; a float is out of range if it is rounded to an infinite one of 64 bits.

Main definitions:

* `Caret.Toml.underscoresApart`, `Caret.Toml.isDigits` — digits with underscores among them;
* `Caret.Toml.IntegerText`, `Caret.Toml.IntegerText.ofRun?`, `Caret.Toml.IntegerText.value?` — an
  integer as it is written, and its value;
* `Caret.Toml.FloatText`, `Caret.Toml.FloatText.ofRun?`, `Caret.Toml.FloatText.overflows` — a
  float as it is written, and whether it is out of range;
* `Caret.Toml.number?` — a number as a value of a document.

Main results:

* `Caret.Toml.IntegerText.range_of_value?` — the value of an integer is in range.
-/

import Caret.Toml.Text
import Caret.Toml.Value

set_option relaxedAutoImplicit false
set_option autoImplicit false

namespace Caret.Toml

/-! ### Digits -/

/-- Is the character a digit of the base, which is at most 16? -/
def isDigitOf (base : Nat) (c : Char) : Bool := (hexValue? c).any (· < base)

/-- Does each underscore behind the first character stand between two characters of the class `p`,
which it is not in? -/
def underscoresApart (p : Char → Bool) : List Char → Bool
  | [] => true
  | c :: cs =>
    (cs.head? != some '_' || (p c && cs.tail.head?.any p)) && underscoresApart p cs

/-- Digits of the class `p`, at least one, with underscores between them. -/
def isDigits (p : Char → Bool) (cs : List Char) : Bool :=
  cs.head?.any p && cs.all (fun c => p c || c == '_') && underscoresApart p cs

/-- The characters of a number without its underscores. -/
def withoutUnderscores (cs : List Char) : List Char := cs.filter (· != '_')

/-- The number that digits of a base make. -/
def ofDigits (base : Nat) (ds : List Char) : Nat :=
  ds.foldl (fun n d => base * n + (hexValue? d).getD 0) 0

/-- The sign in front of a number, and the rest. -/
def splitSign : List Char → Option Char × List Char
  | '+' :: cs => (some '+', cs)
  | '-' :: cs => (some '-', cs)
  | cs => (none, cs)

/-- Does a zero stand in front of further digits? -/
def leadsWithZero : List Char → Bool
  | '0' :: c :: _ => c.isDigit || c == '_'
  | _ => false

/-! ### Integers -/

/-- An integer as it is written. -/
structure IntegerText where
  base : Nat
  negative : Bool
  /-- What stands behind the sign or the prefix. -/
  digits : List Char
  deriving DecidableEq, Repr

namespace IntegerText

/-- A decimal integer.  If there are underscores, the sign counts as a digit, and other characters
are let through; but with a point or an exponent the number would be a float. -/
def decimal? (cs : List Char) : Option IntegerText :=
  let (sign, body) := splitSign cs
  let rest := body.dropWhile Char.isDigit
  let signed := if sign.isSome then '0' :: body else body
  let parted := rest.head? == some '_' && !rest.any (fun c => c == '.' || c == 'e' || c == 'E') &&
    signed.head?.any Char.isDigit && underscoresApart (isDigitOf 16) signed
  if !leadsWithZero body && (parted || (rest.isEmpty && !body.isEmpty)) then
    some ⟨10, sign == some '-', body⟩
  else none

/-- An integer with a prefix for its base, whose digits may be missing. -/
def prefixed? (base : Nat) (digits : List Char) : Option IntegerText :=
  if digits.isEmpty || isDigits (isDigitOf base) digits then some ⟨base, false, digits⟩
  else none

/-- The run as an integer. -/
def ofRun? : List Char → Option IntegerText
  | '0' :: 'x' :: digits => prefixed? 16 digits
  | '0' :: 'o' :: digits => prefixed? 8 digits
  | '0' :: 'b' :: digits => prefixed? 2 digits
  | cs => decimal? cs

/-- The value, which needs digits and nothing else, and has to be in the range of 128 bits. -/
def value? (i : IntegerText) : Option Int :=
  let ds := withoutUnderscores i.digits
  if ds.isEmpty || !ds.all (isDigitOf i.base) then none
  else
    let n : Int := ofDigits i.base ds
    let n := if i.negative then -n else n
    if -(Int.pow 2 127) ≤ n ∧ n < Int.pow 2 128 then some n else none

/-- A value is in the range of 128 bits, signed or unsigned. -/
theorem range_of_value? {i : IntegerText} {n : Int} (h : i.value? = some n) :
    -(Int.pow 2 127) ≤ n ∧ n < Int.pow 2 128 := by
  simp only [value?] at h
  split at h
  · exact absurd h (by simp)
  · split at h
    all_goals
      split at h
      · next hn =>
          obtain rfl := Option.some.inj h
          exact hn
      · exact absurd h (by simp)

end IntegerText

/-! ### Floats -/

/-- A float as it is written, without its sign. -/
structure FloatText where
  /-- The digits, without the point. -/
  digits : List Char
  /-- The power of ten by which the last digit counts. -/
  exponent : Int
  deriving DecidableEq, Repr

namespace FloatText

/-- The run as a float that has digits. -/
def ofRun? (cs : List Char) : Option FloatText :=
  let (sign, body) := splitSign cs
  let number := if sign.isSome && body.head? == some '_' then body.tail else body
  let mantissa := number.takeWhile fun c => c != 'e' && c != 'E'
  let power := number.drop mantissa.length
  let whole := mantissa.takeWhile (· != '.')
  let fraction := mantissa.drop whole.length
  let (powerSign, powerDigits) := splitSign power.tail
  if !leadsWithZero body && isDigits Char.isDigit whole &&
      (fraction.isEmpty || isDigits Char.isDigit fraction.tail) &&
      (power.isEmpty || isDigits Char.isDigit powerDigits) &&
      !(fraction.isEmpty && power.isEmpty) then
    let places := withoutUnderscores fraction.tail
    let n : Int := ofDigits 10 (withoutUnderscores powerDigits)
    some ⟨withoutUnderscores whole ++ places,
      (if powerSign == some '-' then -n else n) - places.length⟩
  else none

/-- The least number that is rounded to an infinite float: it lies halfway between the largest float
of 64 bits, whose last bit is set, and the next power of two. -/
def bound : Nat := Nat.pow 2 1024 - Nat.pow 2 970

/-- Is the float rounded to an infinite one?  The bound has 309 digits, so only a number with as
many in front of its point has to be compared with it. -/
def overflows (x : FloatText) : Bool :=
  let ds := x.digits.dropWhile (· == '0')
  let places : Int := ds.length + x.exponent
  if ds.isEmpty || places < 309 then false
  else if 309 < places then true
  else bound * Nat.pow 10 (-x.exponent).toNat ≤ ofDigits 10 ds * Nat.pow 10 x.exponent.toNat

end FloatText

/-- Is the run an infinite float, or the one that is not a number? -/
def isSpecialFloat (cs : List Char) : Bool :=
  let body := (splitSign cs).2
  body == "inf".toList || body == "nan".toList

/-! ### Numbers -/

/-- The run as a number, which may be one without a value. -/
def number? (cs : List Char) : Option Value :=
  let text := String.ofList cs
  match IntegerText.ofRun? cs, FloatText.ofRun? cs with
  | some i, _ => some ((i.value?.map .integer).getD (.badNumber text))
  | none, some x => some (if x.overflows then .badNumber text else .float text)
  | none, none => if isSpecialFloat cs then some (.float text) else none

end Caret.Toml
