/-
**Moving over an array of tokens.**

A trail has a token at its position because of what it is made of.  An array with an index promises
nothing like that: a step too many, or a walk that ends behind its last check, and the next look at the
token fails.  Here each move of a trail is made over an array, by the walks that check every look at a
token and every difference, and whose loops have no measure.  Every sequence of moves gives the same
answers as over the trail and leaves the index where the trail has its position, so no look at a token
ever fails.

Main definitions:

* `Caret.Checked.Walk.perform?`, `Caret.Checked.Walk.performAll?` — one move, and several.

Main results:

* `Caret.Checked.Walk.perform?_ofTrail`, `Caret.Checked.Walk.performAll?_ofTrail` — no move fails, and it
  does what it does to a trail;
* `Caret.Checked.Walk.moves_exact` — **whatever the moves, the index stays on a token and only goes
  back**.
-/

import Caret.Proofs.Moves
import Caret.Proofs.Checked.Walk

set_option relaxedAutoImplicit false
set_option autoImplicit false

namespace Caret.Checked.Walk

/-! ### Moves over an array -/

/-- A move: its answer, and where it leaves the index. -/
def perform? (w : Walk) : Move → Option (Move.Answer × Walk)
  | .stepBack => w.stepBack?.map (.map .found id)
  | .toOpener opener closer => (w.toOpener? opener closer).map (.map .found id)
  | .toMatchingBracket => w.toMatchingBracket?.map (.map .found id)
  | .toOpenBrace => (w.toOpener? (.op .lbrace) (.op .rbrace)).map (.map .found id)
  | .expression => w.expression?.map (.map (.text ∘ some) id)
  | .typeName => w.typeName?.map (.map .text id)

/-- Several moves, one after the other. -/
def performAll? (w : Walk) (moves : List Move) : Option Walk :=
  moves.foldlM (fun w m => (w.perform? m).map (·.2)) w

/-! ### No move fails -/

/-- No move fails, and it does what it does to a trail. -/
theorem perform?_ofTrail (t : Trail) (m : Move) :
    (ofTrail t).perform? m = some ((t.perform m).1, ofTrail (t.perform m).2) := by
  cases m with
  | stepBack =>
      rw [perform?, stepBack?_ofTrail]
      rfl
  | toOpener opener closer =>
      rw [perform?, toOpener?_ofTrail]
      rfl
  | toMatchingBracket =>
      rw [perform?, toMatchingBracket?_ofTrail]
      rfl
  | toOpenBrace =>
      rw [perform?, toOpener?_ofTrail]
      rfl
  | expression =>
      rw [perform?, expression?_ofTrail]
      rfl
  | typeName =>
      rw [perform?, typeName?_ofTrail]
      rfl

/-- No sequence of moves fails either. -/
theorem performAll?_ofTrail (t : Trail) (moves : List Move) :
    (ofTrail t).performAll? moves = some (ofTrail (t.performAll moves)) := by
  induction moves generalizing t with
  | nil => rfl
  | cons m moves ih =>
      rw [Trail.performAll_cons, ← ih, performAll?, List.foldlM_cons, perform?_ofTrail]
      rfl

/-- **Whatever the moves, the index stays on a token and only goes back.**  An array of tokens that is
not empty is looked at from its last token.  After any sequence of moves one more is made.  No look at
a token fails on the way, over the array as over the trail; the tokens are still the same, the index is
that of a token, and it is not larger than before.  A step back that fails, and the walk to a matching
bracket from any token that closes nothing, leave the index where it is.  The walk to an opening bracket
ends on one of the kind asked for if it finds one, and on the first token if not. -/
theorem moves_exact {tokens : List Token} (h : tokens ≠ []) (moves : List Move) (m : Move) :
    ∃ t : Trail, Trail.ofTokens? tokens = some t ∧ t.index + 1 = tokens.length ∧
      let s := t.performAll moves
      let answer := (s.perform m).1
      let s' := (s.perform m).2
      (⟨tokens, tokens.length - 1⟩ : Walk).performAll? moves = some ⟨tokens, s.index⟩ ∧
      (⟨tokens, s.index⟩ : Walk).perform? m = some (answer, ⟨tokens, s'.index⟩) ∧
      s'.tokens = tokens ∧ s'.index < tokens.length ∧ tokens[s'.index]? = some s'.current ∧
      s'.index ≤ s.index ∧
      (m = .stepBack → answer = .found false → s'.index = s.index) ∧
      (m = .toMatchingBracket → s.kind.opener? = none → s'.index = s.index) ∧
      ∀ opener closer, m = .toOpener opener closer →
        (answer = .found true → s'.kind = opener) ∧ (answer = .found false → s'.index = 0) := by
  obtain ⟨t, ht, htokens, hlast⟩ := Trail.exists_ofTokens? h
  have hstart : (⟨tokens, tokens.length - 1⟩ : Walk) = ofTrail t := by
    rw [ofTrail, htokens, ← hlast, Nat.add_sub_cancel]
  have hall : (t.performAll moves).tokens = tokens := (t.tokens_performAll moves).trans htokens
  have hone : ((t.performAll moves).perform m).2.tokens = tokens :=
    ((t.performAll moves).tokens_perform m).trans hall
  have hat : ∀ s : Trail, s.tokens = tokens → ofTrail s = ⟨tokens, s.index⟩ := fun s hs => by
    rw [ofTrail, hs]
  refine ⟨t, ht, hlast, ?_, ?_, hone, ?_, ?_, (t.performAll moves).index_perform_le m, ?_, ?_, ?_⟩
  · rw [hstart, performAll?_ofTrail, hat _ hall]
  · rw [← hat _ hall, ← hat _ hone, perform?_ofTrail]
  · have hlt := ((t.performAll moves).perform m).2.index_lt_length
    rwa [Trail.length, hone] at hlt
  · have hget := ((t.performAll moves).perform m).2.getElem?_index
    rwa [hone] at hget
  · rintro rfl hfound
    exact Trail.index_back_of_not_found (Move.Answer.found.inj hfound)
  · rintro rfl hother
    exact congrArg Trail.index (congrArg Prod.snd (Trail.toMatchingBracket_of_other hother))
  · rintro opener closer rfl
    exact ⟨fun hfound => Trail.kind_toOpener (Move.Answer.found.inj hfound),
      fun hfound => Trail.index_toOpener_of_false (Move.Answer.found.inj hfound)⟩

/-- A walk that finds no brace, a step back from the first token, and a walk from a name to a matching
bracket: all of them stay on the first token. -/
theorem moves_exact_stuck : ∃ tokens : List Token, tokens ≠ [] ∧
    tokens.map (·.text) = ["a", ".", "b", ")"] ∧
    (⟨tokens, tokens.length - 1⟩ : Walk).performAll? [.expression, .toOpenBrace, .stepBack]
      = some ⟨tokens, 0⟩ ∧
    (⟨tokens, 0⟩ : Walk).perform? .toMatchingBracket = some (.found false, ⟨tokens, 0⟩) := by
  let tokens : List Token := [⟨.ident, "a"⟩, ⟨.op .period, "."⟩, ⟨.ident, "b"⟩, ⟨.op .rparen, ")"⟩]
  have hne : tokens ≠ [] := by decide
  obtain ⟨t, ht, -, hall, hone, -⟩ :=
    moves_exact hne [.expression, .toOpenBrace, .stepBack] .toMatchingBracket
  obtain rfl := Option.some.inj ht
  have hend : Trail.performAll ⟨[⟨.ident, "b"⟩, ⟨.op .period, "."⟩, ⟨.ident, "a"⟩], ⟨.op .rparen, ")"⟩, []⟩
      [.expression, .toOpenBrace, .stepBack]
        = ⟨[], ⟨.ident, "a"⟩, [⟨.op .period, "."⟩, ⟨.ident, "b"⟩, ⟨.op .rparen, ")"⟩]⟩ := by
    decide +kernel
  rw [hend] at hall hone
  exact ⟨tokens, hne, by decide, hall, hone⟩

end Caret.Checked.Walk
