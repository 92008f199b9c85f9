/-
**The type in front of an open brace.**

In a composite literal such as `lib.Point{X: 1, Y: 2}` the brace follows the name of the type, which
may be qualified by the name of a package.  A literal of a type without a name has no name in front
of its brace.

Main definitions:

* `Caret.typeName?` — the name that the tokens in front of a brace give;
* `Caret.Trail.typeName` — the name in front of the brace around the position.

Main results:

* `Caret.Trail.tokens_typeName` — walking keeps the tokens.
-/

import Caret.Trail.Bracket

set_option relaxedAutoImplicit false
set_option autoImplicit false

namespace Caret

/-- The type name at the end of the tokens before a brace, which stand nearest first. -/
def typeName? : List Token → Option String
  | ⟨.ident, name⟩ :: ⟨.op .period, _⟩ :: ⟨.ident, package⟩ :: _ => some (package ++ "." ++ name)
  | ⟨.ident, name⟩ :: _ => some name
  | _ => none

/-- The number of tokens looked at to find the name: one, one more behind a name, and one more
behind a period. -/
def typeNameReach : List Token → Nat
  | ⟨.ident, _⟩ :: ⟨.op .period, _⟩ :: _ => 3
  | ⟨.ident, _⟩ :: _ => 2
  | _ => 1

namespace Trail

/-- The name of the type whose literal encloses the position, and the trail at the last token looked
at.  There is no name without an enclosing brace. -/
def typeName (t : Trail) : Option String × Trail :=
  match t.toOpenBrace with
  | (false, t) => (none, t)
  | (true, t) => (typeName? t.before, t.back (typeNameReach t.before))

/-- The name stands in front of the brace at the position, or else in front of the one around it. -/
theorem typeName_fst (t : Trail) :
    t.typeName.1 = if t.kind = .op .lbrace then typeName? t.before
      else (enclosure? (.op .lbrace) (.op .rbrace) 0 t.before).bind fun e => typeName? e.before := by
  by_cases hk : t.kind = .op .lbrace
  · simp [typeName, toOpenBrace, toOpener, hk]
  · cases he : enclosure? (.op .lbrace) (.op .rbrace) 0 t.before with
    | none => simp [typeName, toOpenBrace, toOpener, hk, he]
    | some e => simp [typeName, toOpenBrace, toOpener, hk, he, land]

@[simp] theorem tokens_typeName (t : Trail) : t.typeName.2.tokens = t.tokens := by
  have h := tokens_toOpenBrace t
  unfold typeName
  split
  · next s heq => rw [heq] at h; exact h
  · next s heq => rw [heq] at h; simpa using h

end Trail

end Caret
