/-
**Moving over a trail.**

A trail is moved in six ways: one token back, to an opening bracket, and over an expression or a type
name.  Each of them is built from single steps back and from the walk to a bracket, and all of them have
the same in common.  The tokens stay as they are, the position only goes back, and there always is a
token at it.  A single move keeps this, and so does any number of them, one after the other.

Main definitions:

* `Caret.Move`, `Caret.Move.Answer` — the ways of moving, and what they answer;
* `Caret.Trail.perform`, `Caret.Trail.performAll` — one move, and several.

Main results:

* `Caret.Trail.tokens_perform`, `Caret.Trail.index_perform_le` — what every move keeps;
* `Caret.Trail.tokens_performAll` — a run of moves keeps the tokens;
* `Caret.Trail.kind_toOpener`, `Caret.Trail.index_toOpener_of_false` — where the walk to a bracket ends.
-/

import Caret.Trail.TypeName
import Caret.Proofs.Expression

set_option relaxedAutoImplicit false
set_option autoImplicit false

namespace Caret

/-- The ways of moving over a trail. -/
inductive Move where
  /-- One token back. -/
  | stepBack
  /-- Back to the unanswered token of kind `opener`. -/
  | toOpener (opener closer : Kind)
  /-- From a closing bracket back to its opener. -/
  | toMatchingBracket
  /-- Back to the brace around the position. -/
  | toOpenBrace
  /-- Back over the expression before the position. -/
  | expression
  /-- Back over the type name in front of the brace around the position. -/
  | typeName
  deriving DecidableEq, Repr

/-- What a move answers. -/
inductive Move.Answer where
  /-- Was there a token to go to? -/
  | found (yes : Bool)
  /-- A text, if there is one. -/
  | text (s : Option String)
  deriving DecidableEq, Repr

namespace Trail

/-! ### Single moves -/

/-- A move: its answer, and the trail behind it.  A step back from the first token stays there. -/
def perform (t : Trail) : Move → Move.Answer × Trail
  | .stepBack => (.found t.stepBack?.isSome, t.back 1)
  | .toOpener opener closer => (t.toOpener opener closer).map .found id
  | .toMatchingBracket => t.toMatchingBracket.map .found id
  | .toOpenBrace => t.toOpenBrace.map .found id
  | .expression => t.expression.map (.text ∘ some) id
  | .typeName => t.typeName.map .text id

/-- Several moves, one after the other. -/
def performAll (t : Trail) (moves : List Move) : Trail := moves.foldl (fun s m => (s.perform m).2) t

@[simp] theorem performAll_nil (t : Trail) : t.performAll [] = t := rfl

@[simp] theorem performAll_cons (t : Trail) (m : Move) (moves : List Move) :
    t.performAll (m :: moves) = (t.perform m).2.performAll moves := rfl

/-- A trail of some tokens is positioned on the last of them. -/
theorem exists_ofTokens? {tokens : List Token} (h : tokens ≠ []) :
    ∃ t, ofTokens? tokens = some t ∧ t.tokens = tokens ∧ t.index + 1 = tokens.length := by
  rcases hr : tokens.reverse with _ | ⟨last, before⟩
  · exact absurd (List.reverse_eq_nil_iff.1 hr) h
  · have ht : ofTokens? tokens = some ⟨before, last, []⟩ := by rw [ofTokens?, hr]
    refine ⟨_, ht, tokens_ofTokens? ht, ?_⟩
    rw [← List.length_reverse, hr]
    rfl

/-! ### Where the walks end -/

@[simp] theorem index_land (t : Trail) (passed : List Token) (landing : Token) (rest : List Token) :
    (t.land passed landing rest).index = rest.length := rfl

/-- There is no step back from the first token. -/
theorem index_of_stepBack? {t : Trail} (h : t.stepBack? = none) : t.index = 0 := by
  unfold stepBack? at h
  split at h
  · next hb => simp [index, hb]
  · simp at h

/-- Going back by some tokens takes them off the position. -/
@[simp] theorem index_back (n : Nat) (t : Trail) : (t.back n).index = t.index - n := by
  induction n generalizing t with
  | zero => rfl
  | succ n ih =>
      rw [back]
      split
      · next h =>
          have hzero := index_of_stepBack? h
          omega
      · next s h =>
          have hstep := index_stepBack? h
          rw [ih]
          omega

/-- The tokens before the position lose the nearest one. -/
theorem before_back_one (t : Trail) : (t.back 1).before = t.before.tail := by
  rcases hb : t.before with _ | ⟨u, before⟩
  · simp [back, stepBack?, hb]
  · simp [back, stepBack?, hb, land]

/-- The nearest of them is the token that a step back leads to. -/
theorem current_back_one {t : Trail} {u : Token} {before : List Token} (h : t.before = u :: before) :
    (t.back 1).current = u := by
  simp [back, stepBack?, h, land]

/-- A step back that finds no token leaves the position where it is. -/
theorem index_back_of_not_found {t : Trail} (h : t.stepBack?.isSome = false) :
    (t.back 1).index = t.index := by
  rw [index_back, index_of_stepBack? (by simpa using h)]

/-- Going back by some tokens and then by some more. -/
theorem back_back (m n : Nat) (t : Trail) : (t.back m).back n = t.back (m + n) := by
  refine eq_of_index (by simp) ?_
  rw [index_back, index_back, index_back]
  omega

/-- The walk to a bracket ends on a bracket of the kind asked for, if it finds one. -/
theorem kind_toOpener {opener closer : Kind} {t : Trail} (h : (t.toOpener opener closer).1 = true) :
    (t.toOpener opener closer).2.kind = opener := by
  unfold toOpener at h ⊢
  split
  · next hk => exact hk
  · next hk =>
      rw [if_neg hk] at h
      split
      · next e he => exact kind_opener_of_enclosure? he
      · next he => simp [he] at h

/-- If it finds none it ends on the first token. -/
theorem index_toOpener_of_false {opener closer : Kind} {t : Trail}
    (h : (t.toOpener opener closer).1 = false) : (t.toOpener opener closer).2.index = 0 := by
  unfold toOpener at h ⊢
  split
  · next hk => simp [hk] at h
  · next hk =>
      rw [if_neg hk] at h
      split
      · next e he => simp [he] at h
      · exact index_rewind t

theorem index_toOpener_le (opener closer : Kind) (t : Trail) :
    (t.toOpener opener closer).2.index ≤ t.index := by
  unfold toOpener
  split
  · exact Nat.le_refl _
  · split
    · next e he => exact Nat.le_of_lt (length_before_lt he)
    · simp

/-- On any other token the walk from a closing bracket stays. -/
theorem toMatchingBracket_of_other {t : Trail} (h : t.kind.opener? = none) :
    t.toMatchingBracket = (false, t) := by
  rw [toMatchingBracket, h]

theorem index_toMatchingBracket_le (t : Trail) : t.toMatchingBracket.2.index ≤ t.index := by
  unfold toMatchingBracket
  split
  · exact index_toOpener_le _ _ t
  · exact Nat.le_refl _

/-- The walk over an expression ends one token in front of it, or on the first token. -/
theorem index_expression (t : Trail) :
    t.expression.2.index = (operand t.kind t.before).2.length - 1 := by
  unfold expression
  simp only
  split
  · next h => simp [h]
  · next stop rest h => simp [h]

theorem length_operand_le (following : Kind) (before : List Token) :
    (operand following before).2.length ≤ before.length := by
  have h := congrArg List.length (append_operand following before)
  rw [List.length_append] at h
  omega

theorem index_expression_le (t : Trail) : t.expression.2.index ≤ t.index := by
  have h := length_operand_le t.kind t.before
  rw [index_expression, index]
  omega

theorem index_typeName_le (t : Trail) : t.typeName.2.index ≤ t.index := by
  have h : t.toOpenBrace.2.index ≤ t.index := index_toOpener_le _ _ t
  unfold typeName
  split
  · next s heq => rwa [heq] at h
  · next s heq =>
      rw [heq] at h
      exact Nat.le_trans (by simp) h

/-! ### What every move keeps -/

/-- A move keeps the tokens. -/
@[simp] theorem tokens_perform (t : Trail) (m : Move) : (t.perform m).2.tokens = t.tokens := by
  cases m with
  | stepBack => exact tokens_back 1 t
  | toOpener opener closer => exact tokens_toOpener opener closer t
  | toMatchingBracket => exact tokens_toMatchingBracket t
  | toOpenBrace => exact tokens_toOpenBrace t
  | expression => exact tokens_expression t
  | typeName => exact tokens_typeName t

/-- A move never goes forward. -/
theorem index_perform_le (t : Trail) (m : Move) : (t.perform m).2.index ≤ t.index := by
  cases m with
  | stepBack =>
      rw [perform, index_back]
      exact Nat.sub_le _ _
  | toOpener opener closer => exact index_toOpener_le opener closer t
  | toMatchingBracket => exact index_toMatchingBracket_le t
  | toOpenBrace => exact index_toOpener_le _ _ t
  | expression => exact index_expression_le t
  | typeName => exact index_typeName_le t

/-- Any number of moves keeps the tokens. -/
@[simp] theorem tokens_performAll (t : Trail) (moves : List Move) :
    (t.performAll moves).tokens = t.tokens := by
  induction moves generalizing t with
  | nil => rfl
  | cons m moves ih => rw [performAll_cons, ih, tokens_perform]

end Trail

end Caret
