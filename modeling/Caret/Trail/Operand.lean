/-
**The expression before a position.**

A primary expression is a chain of names, periods and bracket groups, such as
`Point{1, 2}.m["foo"].s[i:j].Call(a, b)`.  Which token may stand in front of which is a small table;
the expression before a position is found by walking back for as long as the table allows, jumping
over each bracket group to its opener.

Main definitions:

* `Caret.Step`, `Caret.Step.ofPair?` — how a token is taken, and the table that decides it;
* `Caret.operand` — the tokens of the expression, and the tokens left before it;
* `Caret.Trail.expression` — the expression before the position written out.

Main results:

* `Caret.append_operand` — what is taken and what is left are the tokens walked over;
* `Caret.Trail.tokens_expression` — walking keeps the tokens.
-/

import Caret.Trail.Bracket

set_option relaxedAutoImplicit false
set_option autoImplicit false

namespace Caret

/-! ### The table -/

/-- How a token of an expression is taken. -/
inductive Step where
  /-- The token alone. -/
  | take
  /-- The token, a closing bracket, and everything back to its opener. -/
  | group (opener : Kind)
  deriving DecidableEq, Repr

/-- How a token of kind `current` is taken in front of one of kind `following`; nothing if it
cannot stand there.  A name follows a period, and a period or a group follows a name; a group in
braces is only followed by a period. -/
def Step.ofPair? (current following : Kind) : Option Step :=
  match current, following with
  | .op .period, .ident => some .take
  | .ident, .op .period => some .take
  | .ident, .op .lbrack => some .take
  | .ident, .op .lbrace => some .take
  | .ident, .op .lparen => some .take
  | .op .rbrace, .op .period => some (.group (.op .lbrace))
  | .op .rparen, .op .period => some (.group (.op .lparen))
  | .op .rparen, .op .lbrack => some (.group (.op .lparen))
  | .op .rparen, .op .lparen => some (.group (.op .lparen))
  | .op .rbrack, .op .period => some (.group (.op .lbrack))
  | .op .rbrack, .op .lbrack => some (.group (.op .lbrack))
  | .op .rbrack, .op .lparen => some (.group (.op .lbrack))
  | _, _ => none

/-- A group is taken back to the opener of its closing bracket. -/
theorem Step.opener?_of_ofPair? {current following opener : Kind}
    (h : Step.ofPair? current following = some (.group opener)) :
    current.opener? = some opener := by
  unfold Step.ofPair? at h
  split at h <;> simp_all [Kind.opener?]

/-! ### The walk -/

/-- The tokens of the expression in front of a token of kind `following`, and the tokens left before
them; all lists stand nearest first.  A group without its opener takes everything. -/
def operand (following : Kind) : List Token → List Token × List Token
  | [] => ([], [])
  | t :: before =>
    match Step.ofPair? t.kind following with
    | none => ([], t :: before)
    | some .take =>
      let (taken, rest) := operand t.kind before
      (t :: taken, rest)
    | some (.group opener) =>
      match _h : enclosure? opener t.kind 0 before with
      | none => (t :: before, [])
      | some e =>
        let (taken, rest) := operand e.opener.kind e.before
        (t :: e.inside ++ e.opener :: taken, rest)
termination_by before => before.length
decreasing_by
  · simp
  · exact Nat.lt_succ_of_lt (length_before_lt _h)

/-- What is taken and what is left are the tokens walked over. -/
theorem append_operand (following : Kind) (before : List Token) :
    (operand following before).1 ++ (operand following before).2 = before := by
  fun_induction operand following before with
  | case1 | case2 | case4 => simp
  | case3 following t before _ taken rest heq ih => simpa [heq] using ih
  | case5 following t before opener _ e h taken rest heq ih =>
      rw [heq] at ih
      simp only [List.cons_append, List.append_assoc]
      rw [ih, ← eq_of_enclosure? h]

namespace Trail

/-- The expression that ends right before the position, and the trail at the token that ended the
walk: the first one that is not part of it, or the first token of all. -/
def expression (t : Trail) : String × Trail :=
  let (taken, rest) := operand t.kind t.before
  let landed :=
    match rest with
    | [] => t.rewind
    | stop :: rest => t.land taken stop rest
  (Token.join taken.reverse, landed)

theorem expression_fst (t : Trail) :
    t.expression.1 = Token.join (operand t.kind t.before).1.reverse := rfl

@[simp] theorem tokens_expression (t : Trail) : t.expression.2.tokens = t.tokens := by
  have h := append_operand t.kind t.before
  unfold expression
  simp only
  split
  · exact tokens_rewind t
  · next stop rest heq =>
      rw [heq] at h
      exact tokens_land h.symm

end Trail

end Caret
