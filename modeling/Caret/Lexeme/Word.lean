/-
**Words.**

A word starts with a letter and goes on with letters and digits, all in the sense of Unicode, with
the underscore among the letters.  Words are the identifiers and the keywords.

Main definitions:

* `Caret.isLetter`, `Caret.isWordChar` — what starts a word, and what goes on with it;
* `Caret.Word.cut` — the word at the front of a text, and the rest.

Main results:

* `Caret.Word.whole_cut` — the word and the rest are the text;
* `Caret.isWordChar_of_isLetter` — a letter may stand anywhere in a word.
-/

import Caret.Text.Cut
import Caret.Unicode.Alphabetic
import Caret.Unicode.Numeric

set_option relaxedAutoImplicit false
set_option autoImplicit false

namespace Caret

/-- The characters that start a word. -/
def isLetter (c : Char) : Bool := c == '_' || Unicode.isAlphabetic c

/-- The characters that a word consists of. -/
def isWordChar (c : Char) : Bool := isLetter c || Unicode.isNumeric c

theorem isWordChar_of_isLetter {c : Char} (h : isLetter c = true) : isWordChar c = true := by
  simp [isWordChar, h]

namespace Word

/-- The word at the front of a text. -/
def cut (cs : List Char) : Cut := .run isWordChar cs

@[simp] theorem whole_cut (cs : List Char) : (cut cs).whole = cs := Cut.whole_run _ _

end Word

end Caret
