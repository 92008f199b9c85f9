/-
**Lexical kinds of Go tokens.**

A token is a literal, an operator, a keyword, or a character that fits nowhere.  Operators and
keywords have one spelling each, literals carry their own text.  This module lists the kinds, their
spellings, and the two properties of a kind that the lexer asks for: whether its text is kept as
written, and whether a line that ends after it ends the statement.

Main definitions:

* `Caret.Operator`, `Caret.Keyword` — the operators and delimiters, and the reserved words;
* `Caret.Kind` — the kind of a token;
* `Caret.Kind.spelling` — the canonical text of a kind, a category name for the literals;
* `Caret.Keyword.ofWord?` — the keyword that a word spells, if it is one;
* `Caret.Keyword.declaring` — the keywords that open a declaration;
* `Caret.Kind.isLiteral`, `Caret.Kind.endsStatement` — the two properties.

Main results:

* `Caret.Keyword.ofWord?_eq_some_iff` — a word spells a keyword exactly when it is its spelling;
* `Caret.Operator.mem_all`, `Caret.Keyword.mem_all`, `Caret.Kind.mem_all` — the listings are
  complete.
-/

set_option relaxedAutoImplicit false
set_option autoImplicit false

namespace Caret

/-! ### Operators and delimiters -/

/-- An operator or delimiter. -/
inductive Operator where
  | add | sub | mul | div | rem
  | bitAnd | bitOr | bitXor | shiftLeft | shiftRight | bitClear
  | addAssign | subAssign | mulAssign | divAssign | remAssign
  | bitAndAssign | bitOrAssign | bitXorAssign | shiftLeftAssign | shiftRightAssign | bitClearAssign
  | logicalAnd | logicalOr | arrow | increment | decrement
  | equal | less | greater | assign | not | tilde
  | notEqual | lessEqual | greaterEqual | define | ellipsis
  | lparen | lbrack | lbrace | comma | period
  | rparen | rbrack | rbrace | semicolon | colon
  deriving DecidableEq, Repr

namespace Operator

/-- Every operator, in the order of declaration. -/
def all : List Operator :=
  [add, sub, mul, div, rem,
   bitAnd, bitOr, bitXor, shiftLeft, shiftRight, bitClear,
   addAssign, subAssign, mulAssign, divAssign, remAssign,
   bitAndAssign, bitOrAssign, bitXorAssign, shiftLeftAssign, shiftRightAssign, bitClearAssign,
   logicalAnd, logicalOr, arrow, increment, decrement,
   equal, less, greater, assign, not, tilde,
   notEqual, lessEqual, greaterEqual, define, ellipsis,
   lparen, lbrack, lbrace, comma, period,
   rparen, rbrack, rbrace, semicolon, colon]

theorem mem_all (o : Operator) : o ∈ all := by
  cases o <;> decide

/-- The text of an operator. -/
def spelling : Operator → String
  | add => "+"
  | sub => "-"
  | mul => "*"
  | div => "/"
  | rem => "%"
  | bitAnd => "&"
  | bitOr => "|"
  | bitXor => "^"
  | shiftLeft => "<<"
  | shiftRight => ">>"
  | bitClear => "&^"
  | addAssign => "+="
  | subAssign => "-="
  | mulAssign => "*="
  | divAssign => "/="
  | remAssign => "%="
  | bitAndAssign => "&="
  | bitOrAssign => "|="
  | bitXorAssign => "^="
  | shiftLeftAssign => "<<="
  | shiftRightAssign => ">>="
  | bitClearAssign => "&^="
  | logicalAnd => "&&"
  | logicalOr => "||"
  | arrow => "<-"
  | increment => "++"
  | decrement => "--"
  | equal => "=="
  | less => "<"
  | greater => ">"
  | assign => "="
  | not => "!"
  | tilde => "~"
  | notEqual => "!="
  | lessEqual => "<="
  | greaterEqual => ">="
  | define => ":="
  | ellipsis => "..."
  | lparen => "("
  | lbrack => "["
  | lbrace => "\x7b"
  | comma => ","
  | period => "."
  | rparen => ")"
  | rbrack => "]"
  | rbrace => "\x7d"
  | semicolon => ";"
  | colon => ":"

end Operator

/-! ### Keywords -/

/-- A reserved word.  A trailing underscore marks the names that are reserved here too. -/
inductive Keyword where
  | break_ | case_ | chan | const | continue_ | default_ | defer | else_ | fallthrough | for_
  | func | go | goto | if_ | import_ | interface | map | package | range | return_
  | select | struct | switch | type_ | var
  deriving DecidableEq, Repr

namespace Keyword

/-- Every keyword, in the order of declaration. -/
def all : List Keyword :=
  [break_, case_, chan, const, continue_, default_, defer, else_, fallthrough, for_,
   func, go, goto, if_, import_, interface, map, package, range, return_,
   select, struct, switch, type_, var]

theorem mem_all (k : Keyword) : k ∈ all := by
  cases k <;> decide

/-- The keywords that open a declaration. -/
def declaring : List Keyword := [type_, const, var, func, package]

/-- The text of a keyword. -/
def spelling : Keyword → String
  | break_ => "break"
  | case_ => "case"
  | chan => "chan"
  | const => "const"
  | continue_ => "continue"
  | default_ => "default"
  | defer => "defer"
  | else_ => "else"
  | fallthrough => "fallthrough"
  | for_ => "for"
  | func => "func"
  | go => "go"
  | goto => "goto"
  | if_ => "if"
  | import_ => "import"
  | interface => "interface"
  | map => "map"
  | package => "package"
  | range => "range"
  | return_ => "return"
  | select => "select"
  | struct => "struct"
  | switch => "switch"
  | type_ => "type"
  | var => "var"

theorem spelling_injective {k l : Keyword} (h : k.spelling = l.spelling) : k = l := by
  revert h
  cases k <;> cases l <;> decide

/-- The keyword that `word` spells, if there is one. -/
def ofWord? (word : String) : Option Keyword :=
  all.find? fun k => k.spelling == word

/-- A word spells a keyword exactly when it is that keyword's spelling. -/
theorem ofWord?_eq_some_iff {word : String} {k : Keyword} :
    ofWord? word = some k ↔ word = k.spelling := by
  constructor
  · intro h
    have := List.find?_some h
    exact (beq_iff_eq.1 this).symm
  · rintro rfl
    cases k <;> decide

end Keyword

/-! ### Kinds -/

/-- The kind of a token.  A character that starts no token is `illegal`; `string` covers both
interpreted and raw string literals. -/
inductive Kind where
  | illegal
  | ident
  | int
  | float
  | imag
  | char
  | string
  | op (o : Operator)
  | keyword (k : Keyword)
  deriving DecidableEq, Repr

namespace Kind

/-- Every kind, in the order of declaration. -/
def all : List Kind :=
  [illegal, ident, int, float, imag, char, string] ++ Operator.all.map op
    ++ Keyword.all.map keyword

theorem mem_all (k : Kind) : k ∈ all := by
  cases k with
  | op o => simp [all, Operator.mem_all]
  | keyword k => simp [all, Keyword.mem_all]
  | _ => simp [all]

/-- The canonical text of a kind.  Literals have no fixed text and give the name of their
category. -/
def spelling : Kind → String
  | illegal => "ILLEGAL"
  | ident => "IDENT"
  | int => "INT"
  | float => "FLOAT"
  | imag => "IMAG"
  | char => "CHAR"
  | string => "STRING"
  | op o => o.spelling
  | keyword k => k.spelling

/-- Kinds whose text is kept as it stands in the source. -/
def isLiteral : Kind → Bool
  | op _ => false
  | keyword _ => false
  | _ => true

/-- Kinds after which the end of a line ends the statement. -/
def endsStatement : Kind → Bool
  | illegal => false
  | ident | int | float | imag | char | string => true
  | op o => o ∈ [Operator.increment, .decrement, .rparen, .rbrack, .rbrace]
  | keyword k => k ∈ [Keyword.break_, .continue_, .fallthrough, .return_]

/-- The kind of a word: the keyword it spells, and an identifier otherwise. -/
def ofWord (word : String) : Kind :=
  match Keyword.ofWord? word with
  | some k => keyword k
  | none => ident

end Kind

end Caret
