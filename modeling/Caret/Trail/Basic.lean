/-
**The trail of tokens before the cursor.**

What the cursor stands in is found by walking back over the tokens before it.  A trail is those
tokens with a read position on one of them: the tokens before the position, nearest first, the token
at the position, and the tokens passed already.  A trail is never empty, so there always is a token
to look at.

Main definitions:

* `Caret.Trail`, `Caret.Trail.tokens`, `Caret.Trail.index` — a trail, all its tokens in the order
  of the source, and the number of tokens before its position;
* `Caret.Trail.ofTokens?` — a trail positioned on the last of some tokens;
* `Caret.Trail.stepBack?`, `Caret.Trail.back`, `Caret.Trail.rewind` — one token back, some tokens
  back, and back to the first token;
* `Caret.Trail.text?` — a range of the tokens written out.

Main results:

* `Caret.Trail.tokens_ofTokens?` — making a trail keeps the tokens;
* `Caret.Trail.tokens_stepBack?`, `Caret.Trail.tokens_back`, `Caret.Trail.tokens_rewind` — moving
  keeps the tokens.
-/

import Caret.Token.Basic

set_option relaxedAutoImplicit false
set_option autoImplicit false

namespace Caret

/-- Tokens with a read position on one of them. -/
structure Trail where
  /-- The tokens before the position, nearest first. -/
  before : List Token
  /-- The token at the position. -/
  current : Token
  /-- The tokens after the position, in the order of the source. -/
  after : List Token
  deriving DecidableEq, Repr

namespace Trail

/-! ### Views -/

/-- All tokens, in the order of the source. -/
def tokens (t : Trail) : List Token := t.before.reverse ++ t.current :: t.after

/-- The number of tokens before the position. -/
def index (t : Trail) : Nat := t.before.length

/-- The number of tokens. -/
def length (t : Trail) : Nat := t.tokens.length

/-- The kind of the token at the position. -/
def kind (t : Trail) : Kind := t.current.kind

/-- The tokens from `start` up to `stop` written out; nothing if that is no range of tokens. -/
def text? (t : Trail) (start stop : Nat) : Option String :=
  if start ≤ stop ∧ stop ≤ t.length then
    some (Token.join ((t.tokens.take stop).drop start))
  else none

theorem index_lt_length (t : Trail) : t.index < t.length := by
  simp only [index, length, tokens, List.length_append, List.length_reverse, List.length_cons]
  omega

theorem getElem?_index (t : Trail) : t.tokens[t.index]? = some t.current := by
  simp [tokens, index]

theorem take_index (t : Trail) : t.tokens.take t.index = t.before.reverse := by
  simp [tokens, index]

/-! ### Making a trail -/

/-- The trail positioned on the last of the tokens; there is none without tokens. -/
def ofTokens? (tokens : List Token) : Option Trail :=
  match tokens.reverse with
  | [] => none
  | last :: before => some ⟨before, last, []⟩

theorem tokens_ofTokens? {tokens : List Token} {t : Trail} (h : ofTokens? tokens = some t) :
    t.tokens = tokens := by
  unfold ofTokens? at h
  split at h
  · simp at h
  · next last before heq =>
      obtain rfl := by simpa using h
      rw [Trail.tokens, ← List.reverse_cons, ← heq, List.reverse_reverse]

/-! ### Moving back -/

/-- The trail with the position on `landing`, which stands before the tokens `passed`; both are
taken off the tokens before the position, nearest first, and `rest` is left. -/
def land (t : Trail) (passed : List Token) (landing : Token) (rest : List Token) : Trail :=
  ⟨rest, landing, passed.reverse ++ t.current :: t.after⟩

/-- One token back; nothing at the first token. -/
def stepBack? (t : Trail) : Option Trail :=
  match t.before with
  | [] => none
  | landing :: rest => some (t.land [] landing rest)

/-- Some tokens back, or to the first token if there are fewer. -/
def back : Nat → Trail → Trail
  | 0, t => t
  | n + 1, t =>
    match t.stepBack? with
    | none => t
    | some t => t.back n

/-- Back to the first token. -/
def rewind (t : Trail) : Trail :=
  match t.before.reverse with
  | [] => t
  | first :: passed => ⟨[], first, passed ++ t.current :: t.after⟩

/-- Landing on a token keeps the tokens. -/
theorem tokens_land {t : Trail} {passed rest : List Token} {landing : Token}
    (h : t.before = passed ++ landing :: rest) :
    (t.land passed landing rest).tokens = t.tokens := by
  simp [tokens, land, h]

theorem tokens_stepBack? {t s : Trail} (h : t.stepBack? = some s) : s.tokens = t.tokens := by
  unfold stepBack? at h
  split at h
  · simp at h
  · next landing rest heq =>
      obtain rfl := by simpa using h
      exact tokens_land heq

theorem index_stepBack? {t s : Trail} (h : t.stepBack? = some s) : s.index + 1 = t.index := by
  unfold stepBack? at h
  split at h
  · simp at h
  · next landing rest heq =>
      obtain rfl := by simpa using h
      simp [index, land, heq]

@[simp] theorem tokens_back (n : Nat) (t : Trail) : (t.back n).tokens = t.tokens := by
  induction n generalizing t with
  | zero => rfl
  | succ n ih =>
      rw [back]
      split
      · rfl
      · next s h => rw [ih, tokens_stepBack? h]

@[simp] theorem tokens_rewind (t : Trail) : t.rewind.tokens = t.tokens := by
  unfold rewind
  split
  · rfl
  · next first passed heq =>
      simp only [tokens, heq, List.reverse_nil, List.nil_append, List.cons_append]

@[simp] theorem index_rewind (t : Trail) : t.rewind.index = 0 := by
  unfold rewind
  split
  · next h => simpa [index] using h
  · rfl

end Trail

end Caret
