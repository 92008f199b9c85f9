/-
**Quoted literals.**

Interpreted strings and runes open and close with the same quote on one line.  A backslash takes
the next character with it, so that an escaped quote does not close; a literal without its closing
quote ends before the newline, or with the text.  Raw strings open and close with a back quote,
know no escapes and may span lines; one that is not closed ends with the text.

Main definitions:

* `Caret.Quoted.cutInterpreted` — what follows the opening quote of an interpreted literal;
* `Caret.Quoted.cutRaw` — what follows the opening quote of a raw string.

Main results:

* `Caret.Quoted.whole_cutInterpreted`, `Caret.Quoted.whole_cutRaw` — the literal and the rest are
  the text.
-/

import Caret.Text.Cut

set_option relaxedAutoImplicit false
set_option autoImplicit false

namespace Caret.Quoted

/-- The rest of an interpreted literal, through its closing quote. -/
def cutInterpreted (quote : Char) : List Char → Cut
  | [] => .nothing []
  | [c] => if c = '\n' then .nothing [c] else ⟨[c], []⟩
  | c :: d :: cs =>
    if c = '\n' then .nothing (c :: d :: cs)
    else if c = quote then ⟨[c], d :: cs⟩
    else if c = '\\' ∧ d ≠ '\n' then (cutInterpreted quote cs).keep [c, d]
    else (cutInterpreted quote (d :: cs)).keep [c]

/-- The rest of a raw string, through its closing quote. -/
def cutRaw : List Char → Cut
  | [] => .nothing []
  | c :: cs => if c = '\x60' then ⟨[c], cs⟩ else (cutRaw cs).keep [c]

@[simp] theorem whole_cutInterpreted (quote : Char) (cs : List Char) :
    (cutInterpreted quote cs).whole = cs := by
  fun_induction cutInterpreted quote cs <;> simp_all [Cut.whole]

@[simp] theorem whole_cutRaw (cs : List Char) : (cutRaw cs).whole = cs := by
  fun_induction cutRaw cs <;> simp_all [Cut.whole]

end Caret.Quoted
