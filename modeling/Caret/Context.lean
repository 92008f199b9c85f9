/-
**What the cursor stands in.**

The tokens that start before the cursor tell what is being written there: the path of an import, a
name selected from an expression, a field of a composite literal, or nothing in particular.  The
last of these tokens may be the name that is being typed; what comes before it then decides.

Main definitions:

* `Caret.Context`, `Caret.Context.kind`, `Caret.Context.expression`, `Caret.Context.typed` — the
  context of a cursor and its parts;
* `Caret.opensImport` — do the tokens before a string make it the path of an import?
* `Caret.Typed.ofToken` — the part of the last token that is typed already;
* `Caret.Context.ofTrail` — the context that the tokens before the cursor give;
* `Caret.Buffer`, `Caret.Buffer.contextAt` — a source text read once, and the contexts in it;
* `Caret.classify` — the context at an offset of a source text.

Main results:

* `Caret.Buffer.trailAt?_eq_none_iff` — there is a trail unless no token starts before the cursor.
-/

import Caret.Lexer
import Caret.Trail.Operand
import Caret.Trail.TypeName

set_option relaxedAutoImplicit false
set_option autoImplicit false

namespace Caret

/-! ### Contexts -/

/-- The kinds of context. -/
inductive ContextKind where
  | unknown
  | importPath
  | selector
  | compositeLiteral
  deriving DecidableEq, Repr

/-- The name of a kind of context. -/
def ContextKind.name : ContextKind → String
  | unknown => "unknown"
  | importPath => "import"
  | selector => "select"
  | compositeLiteral => "compositeLiteral"

/-- What the cursor stands in, with what is typed already. -/
inductive Context where
  /-- Nothing that is recognised. -/
  | unknown (typed : String)
  /-- The path of an import, up to the cursor. -/
  | importPath (path : String)
  /-- A name after a period; `operand` is the expression before the period, if there is one. -/
  | selector (operand : Option String) (typed : String)
  /-- An element of a composite literal; `typeName` is missing for a type without a name. -/
  | compositeLiteral (typeName : Option String) (typed : String)
  deriving DecidableEq, Repr

namespace Context

/-- The kind of a context. -/
def kind : Context → ContextKind
  | unknown _ => .unknown
  | importPath _ => .importPath
  | selector _ _ => .selector
  | compositeLiteral _ _ => .compositeLiteral

/-- The expression or the type name, empty where there is none. -/
def expression : Context → String
  | selector operand _ => operand.getD ""
  | compositeLiteral typeName _ => typeName.getD ""
  | _ => ""

/-- The text typed at the cursor. -/
def typed : Context → String
  | unknown typed => typed
  | importPath path => path
  | selector _ typed => typed
  | compositeLiteral _ typed => typed

end Context

/-! ### Import declarations -/

/-- Do the kinds of the tokens before a string, nearest first, make it the path of an import?  They
do when they lead back to the keyword over a possible parenthesis and any number of earlier paths,
each ended by a semicolon.  A path may follow a name or a period, which `aliased` allows. -/
def opensImport (aliased : Bool) : List Kind → Bool
  | .op .semicolon :: .string :: before => opensImport true before
  | .op .lparen :: .keyword .import_ :: _ => true
  | .keyword .import_ :: _ => true
  | .ident :: before => aliased && opensImport false before
  | .op .period :: before => aliased && opensImport false before
  | _ => false

/-! ### The token at the cursor -/

/-- What the last token before the cursor contributes to the name being typed. -/
inductive Typed where
  /-- The token is no name; the name is still empty. -/
  | nothing
  /-- The token is a name, typed up to here. -/
  | word (text : String)
  /-- The token is a name that ends before the cursor. -/
  | leftBehind
  deriving DecidableEq, Repr

/-- The part of a token that is typed at a cursor `distance` bytes after its start.  The keywords
that open a declaration count as names and are always taken whole. -/
def Typed.ofToken (t : Token) (distance : Nat) : Typed :=
  match t.kind with
  | .ident =>
    if utf8Length t.text.toList < distance then .leftBehind
    else .word (String.ofList (takeBytes distance t.text.toList))
  | .keyword k =>
    if k ∈ Keyword.declaring then .word k.spelling else .nothing
  | _ => .nothing

/-- Is a cursor `distance` bytes after the start of a string literal inside of it?  The end of the
literal is inside as long as the closing quote is missing. -/
def insideString (t : Token) (distance : Nat) : Bool :=
  let length := utf8Length t.text.toList
  decide (distance < length) || (distance == length && t.isUnterminated)

/-! ### From tokens to a context -/

namespace Context

/-- The context after the token at the position, with `typed` typed since. -/
def behind (t : Trail) (typed : String) : Context :=
  match t.kind with
  | .op .period =>
    let operand := t.expression.1
    .selector (if operand = "" then none else some operand) typed
  | .op .comma => .compositeLiteral t.typeName.1 typed
  | .op .lbrace => .compositeLiteral t.typeName.1 typed
  | _ => .unknown typed

/-- The context in the string literal at the position, `distance` bytes after its start. -/
def within (t : Trail) (distance : Nat) : Context :=
  if insideString t.current distance && opensImport true (t.before.map (·.kind)) then
    .importPath (String.ofList ((takeBytes distance t.current.text.toList).drop 1))
  else .unknown ""

/-- The context of a cursor `distance` bytes after the start of the last token before it, which is
the one at the position. -/
def ofTrail (t : Trail) (distance : Nat) : Context :=
  if t.kind = .string then within t distance
  else
    match Typed.ofToken t.current distance with
    | .leftBehind => .unknown ""
    | .nothing => behind t ""
    | .word text =>
      match t.stepBack? with
      | none => .unknown text
      | some t => behind t text

end Context

/-! ### Source texts -/

/-- A source text together with its lexemes. -/
structure Buffer where
  text : List Char
  lexemes : List Lexeme
  deriving DecidableEq, Repr

namespace Buffer

/-- The buffer that holds a source text. -/
def ofString (source : String) : Buffer := ⟨source.toList, Lexeme.ofText source.toList⟩

/-- The tokens that start before the cursor, positioned on the last of them, and the distance from
its start to the cursor.  A cursor past the end or inside a character is moved back first. -/
def trailAt? (b : Buffer) (cursor : Nat) : Option (Trail × Nat) :=
  let cursor := floorBoundary b.text cursor
  let seen := b.lexemes.takeWhile fun l => decide (l.start.offset < cursor)
  match seen.reverse with
  | [] => none
  | last :: before => some (⟨before.map (·.token), last.token, []⟩, cursor - last.start.offset)

/-- The context at a cursor. -/
def contextAt (b : Buffer) (cursor : Nat) : Context :=
  match b.trailAt? cursor with
  | none => .unknown ""
  | some (t, distance) => .ofTrail t distance

theorem trailAt?_eq_none_iff {b : Buffer} {cursor : Nat} :
    b.trailAt? cursor = none ↔
      b.lexemes.takeWhile (fun l => decide (l.start.offset < floorBoundary b.text cursor)) = [] := by
  unfold trailAt?
  simp only
  split
  · next h => simpa using h
  · next h => simp only [reduceCtorEq, false_iff]; intro hn; simp [hn] at h

end Buffer

/-- The context at a byte offset of a source text. -/
def classify (source : String) (cursor : Nat) : Context := (Buffer.ofString source).contextAt cursor

end Caret
