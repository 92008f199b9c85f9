/-
**Lexemes.**

What stands at the front of a text decides what is read there: a letter starts a word, a digit, or a
point before a digit, a number, a quote a literal, and anything else an operator.  A character that
starts none of these is taken alone, as an illegal token.

Main definitions:

* `Caret.Lexeme` — a token together with where it starts and stops;
* `Caret.Lexeme.scan` — the kind and the text at the front of a text.

Main results:

* `Caret.Lexeme.whole_scan` — the lexeme and the rest are the text;
* `Caret.Lexeme.taken_scan_ne_nil` — something is taken from every text that is not empty.
-/

import Caret.Lexeme.Number
import Caret.Lexeme.Quoted
import Caret.Lexeme.Symbol
import Caret.Lexeme.Word
import Caret.Text.Position
import Caret.Token.Basic

set_option relaxedAutoImplicit false
set_option autoImplicit false

namespace Caret

/-- A token, and the places where it starts and stops. -/
structure Lexeme where
  token : Token
  start : Position
  stop : Position
  deriving DecidableEq, Repr

namespace Lexeme

/-- The kind and the text of the lexeme at the front of a text. -/
def scan : List Char → Kind × Cut
  | [] => (.illegal, .nothing [])
  | c :: cs =>
    if isLetter c then
      let word := Word.cut (c :: cs)
      (.ofWord (String.ofList word.taken), word)
    else if Number.starts (c :: cs) then
      ((Number.read (c :: cs)).1.kind, Number.cut (c :: cs))
    else if c = '"' then (.string, (Quoted.cutInterpreted c cs).keep [c])
    else if c = '\'' then (.char, (Quoted.cutInterpreted c cs).keep [c])
    else if c = '\x60' then (.string, (Quoted.cutRaw cs).keep [c])
    else
      match Operator.read? (c :: cs) with
      | some (o, rest) => (.op o, ⟨o.spelling.toList, rest⟩)
      | none => (.illegal, ⟨[c], cs⟩)

/-- The lexeme and the rest laid end to end are the text. -/
@[simp] theorem whole_scan (cs : List Char) : (scan cs).2.whole = cs := by
  unfold scan
  split
  · simp
  · next c cs =>
      repeat' split
      · simp
      · simp
      · simp
      · simp
      · simp
      · next h => exact (Operator.eq_append_of_read? h).symm
      · rfl

/-- Something is taken from every text that is not empty. -/
theorem taken_scan_ne_nil (c : Char) (cs : List Char) : (scan (c :: cs)).2.taken ≠ [] := by
  unfold scan
  simp only
  repeat' split
  · next h => simp [Word.cut, Cut.run, List.takeWhile, isWordChar_of_isLetter h]
  · next h => exact Number.taken_cut_ne_nil h
  · simp
  · simp
  · simp
  · exact Operator.spelling_ne_nil _
  · simp

end Lexeme

end Caret
