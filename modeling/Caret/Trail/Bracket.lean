/-
**Walking back to an opening bracket.**

Going back from a position, every closing bracket met has to be answered by an opening one before
the bracket that encloses the position can be found.  Only one kind of bracket is counted at a time.

Main definitions:

* `Caret.Kind.opener?` — the opening bracket that a closing one answers;
* `Caret.Enclosure`, `Caret.enclosure?` — the nearest unanswered opening bracket, and what stands
  after it;
* `Caret.Trail.toOpener` — the walk back to it;
* `Caret.Trail.toMatchingBracket`, `Caret.Trail.toOpenBrace` — the walk from a closing bracket to
  its opener, and to the brace that encloses the position.

Main results:

* `Caret.eq_of_enclosure?` — nothing is lost on the way;
* `Caret.kind_opener_of_enclosure?` — an opening bracket is found;
* `Caret.Trail.tokens_toOpener`, `Caret.Trail.tokens_toMatchingBracket`,
  `Caret.Trail.tokens_toOpenBrace` — walking keeps the tokens.
-/

import Caret.Trail.Basic

set_option relaxedAutoImplicit false
set_option autoImplicit false

namespace Caret

/-- The opening bracket of a closing one. -/
def Kind.opener? : Kind → Option Kind
  | op .rparen => some (op .lparen)
  | op .rbrack => some (op .lbrack)
  | op .rbrace => some (op .lbrace)
  | _ => none

/-! ### The search -/

/-- What a search back from a position finds; the tokens stand nearest first. -/
structure Enclosure where
  /-- The tokens between the opening bracket and the position. -/
  inside : List Token
  /-- The opening bracket. -/
  opener : Token
  /-- The tokens before the opening bracket. -/
  before : List Token
  deriving DecidableEq, Repr

/-- The same enclosure with one token more inside, next to the position. -/
def Enclosure.push (t : Token) (e : Enclosure) : Enclosure := ⟨t :: e.inside, e.opener, e.before⟩

/-- The nearest token of kind `opener` that is not answered by one of kind `closer`, where `depth`
closing brackets are still to be answered. -/
def enclosure? (opener closer : Kind) : Nat → List Token → Option Enclosure
  | _, [] => none
  | depth, t :: before =>
    if t.kind = closer then
      (enclosure? opener closer (depth + 1) before).map (.push t)
    else if t.kind = opener then
      match depth with
      | 0 => some ⟨[], t, before⟩
      | depth + 1 => (enclosure? opener closer depth before).map (.push t)
    else (enclosure? opener closer depth before).map (.push t)

/-- The parts of an enclosure laid end to end are the tokens searched. -/
theorem eq_of_enclosure? {opener closer : Kind} {depth : Nat} {before : List Token}
    {e : Enclosure} (h : enclosure? opener closer depth before = some e) :
    before = e.inside ++ e.opener :: e.before := by
  fun_induction enclosure? opener closer depth before generalizing e with
  | case1 => simp at h
  | case3 => cases h; rfl
  | case2 depth t before _ ih | case4 t before _ _ depth ih | case5 depth t before _ _ ih =>
      obtain ⟨e, he, rfl⟩ := Option.map_eq_some_iff.1 h
      simp [Enclosure.push, ← ih he]

/-- What is found is an opening bracket. -/
theorem kind_opener_of_enclosure? {opener closer : Kind} {depth : Nat} {before : List Token}
    {e : Enclosure} (h : enclosure? opener closer depth before = some e) :
    e.opener.kind = opener := by
  fun_induction enclosure? opener closer depth before generalizing e with
  | case1 => simp at h
  | case3 t before _ hk => cases h; exact hk
  | case2 depth t before _ ih | case4 t before _ _ depth ih | case5 depth t before _ _ ih =>
      obtain ⟨e, he, rfl⟩ := Option.map_eq_some_iff.1 h
      exact (ih he : e.opener.kind = opener)

/-- The tokens before the bracket are fewer than those searched. -/
theorem length_before_lt {opener closer : Kind} {depth : Nat} {before : List Token}
    {e : Enclosure} (h : enclosure? opener closer depth before = some e) :
    e.before.length < before.length := by
  rw [eq_of_enclosure? h, List.length_append, List.length_cons]
  omega

/-! ### The walk -/

namespace Trail

/-- Back to the unanswered token of kind `opener`, unless the position is on one already.  The token
at the position counts as the closing bracket, whatever it is.  If there is none the walk ends on
the first token. -/
def toOpener (opener closer : Kind) (t : Trail) : Bool × Trail :=
  if t.kind = opener then (true, t)
  else
    match enclosure? opener closer 0 t.before with
    | some e => (true, t.land e.inside e.opener e.before)
    | none => (false, t.rewind)

/-- From a closing bracket back to its opener.  On any other token the position stays. -/
def toMatchingBracket (t : Trail) : Bool × Trail :=
  match t.kind.opener? with
  | some opener => t.toOpener opener t.kind
  | none => (false, t)

/-- Back to the brace that opens the block around the position. -/
def toOpenBrace (t : Trail) : Bool × Trail := t.toOpener (.op .lbrace) (.op .rbrace)

@[simp] theorem tokens_toOpener (opener closer : Kind) (t : Trail) :
    (t.toOpener opener closer).2.tokens = t.tokens := by
  unfold toOpener
  split
  · rfl
  · split
    · next e h => exact tokens_land (eq_of_enclosure? h)
    · exact tokens_rewind t

@[simp] theorem tokens_toMatchingBracket (t : Trail) :
    t.toMatchingBracket.2.tokens = t.tokens := by
  unfold toMatchingBracket
  split
  · exact tokens_toOpener _ _ t
  · rfl

@[simp] theorem tokens_toOpenBrace (t : Trail) : t.toOpenBrace.2.tokens = t.tokens :=
  tokens_toOpener _ _ t

end Trail

end Caret
