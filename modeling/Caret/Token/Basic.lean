/-
**Tokens.**

A token has a kind and a text.  Joining tokens writes the text of the literals and the canonical
spelling of everything else, so what is joined never depends on how a token came about: a semicolon
that stands for the end of a line is written like any other.

Main definitions:

* `Caret.Token`, `Caret.Token.literal` — a token, and the text it is written with;
* `Caret.Token.join` — the texts of several tokens, one after the other;
* `Caret.Token.isUnterminated` — does a string literal lack its closing quote?

Main results:

* `Caret.Token.join_append` — joining is compatible with appending.
-/

import Caret.Token.Kind

set_option relaxedAutoImplicit false
set_option autoImplicit false

namespace Caret

/-- A token: its kind, and its text as it stands in the source.  A semicolon inserted at the end of
a line has a newline for its text. -/
structure Token where
  kind : Kind
  text : String
  deriving DecidableEq, Repr

namespace Token

/-- The semicolon that stands for the end of a line. -/
def lineEnd : Token := ⟨.op .semicolon, "\n"⟩

/-! ### Writing tokens -/

/-- The text a token is written with: its own for a literal, the spelling of its kind otherwise. -/
def literal (t : Token) : String :=
  if t.kind.isLiteral then t.text else t.kind.spelling

theorem literal_of_isLiteral {t : Token} (h : t.kind.isLiteral = true) : t.literal = t.text := if_pos h

/-- The texts of the tokens, one after the other. -/
def join (tokens : List Token) : String :=
  String.ofList (tokens.flatMap fun t => t.literal.toList)

@[simp] theorem join_nil : join [] = "" := rfl

theorem join_cons (t : Token) (ts : List Token) : join (t :: ts) = t.literal ++ join ts := by
  simp [join, String.ofList_append]

theorem join_append (ts us : List Token) : join (ts ++ us) = join ts ++ join us := by
  simp [join, List.flatMap_append, String.ofList_append]

/-! ### Unterminated string literals -/

/-- Does `rest`, which follows the opening quote, close the literal?  It does when it ends in the
same quote and that one is not escaped; a back quote cannot be escaped.  Quotes are ASCII. -/
def closesLiteral (quote : Char) (rest : List Char) : Bool :=
  match rest.reverse with
  | [] => false
  | last :: body =>
    last == quote && decide (quote.toNat < 0x80) &&
      (quote == '\x60' || (body.takeWhile (· == '\\')).length % 2 == 0)

/-- A string literal that reached the end of its line, or of the text, without its closing quote. -/
def isUnterminated (t : Token) : Bool :=
  t.kind == .string &&
    match t.text.toList with
    | [] => false
    | quote :: rest => !closesLiteral quote rest

end Token

end Caret
