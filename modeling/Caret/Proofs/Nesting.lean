/-
**Brackets of all kinds.**

The walk back from a closing bracket counts the brackets of its own kind and looks at no others.
Where brackets nest properly that is enough: a stack that takes brackets of all three kinds pairs the
closing bracket with the same opener.  For this the tokens only have to nest up to the closing
bracket; brackets that are open behind it, or never closed, do no harm.

Main definitions:

* `Caret.Kind.isOpener` — the brackets that open;
* `Caret.Nesting`, `Caret.nesting?` — the brackets open behind some tokens and the pairs found so
  far, unless a closing bracket does not answer the bracket opened last.

Main results:

* `Caret.openBrackets_of_nesting` — among the open brackets of all kinds, those of one kind are the
  ones that a stack for this kind alone holds;
* `Caret.Trail.toMatchingBracket_of_nesting` — **the walk leads to the opener that the stack pairs
  with the closing bracket**.
-/

import Caret.Proofs.EnclosingBrace
import Caret.Proofs.Expression

set_option relaxedAutoImplicit false
set_option autoImplicit false

namespace Caret

/-! ### Openers -/

/-- The brackets that open. -/
def Kind.isOpener : Kind → Bool
  | op .lparen => true
  | op .lbrack => true
  | op .lbrace => true
  | _ => false

/-- The three pairs of brackets. -/
theorem Kind.opener?_cases {closer opener : Kind} (h : closer.opener? = some opener) :
    (closer = .op .rparen ∧ opener = .op .lparen) ∨ (closer = .op .rbrack ∧ opener = .op .lbrack) ∨
      (closer = .op .rbrace ∧ opener = .op .lbrace) := by
  unfold opener? at h
  split at h
  · exact Or.inl ⟨rfl, (Option.some.inj h).symm⟩
  · exact Or.inr (Or.inl ⟨rfl, (Option.some.inj h).symm⟩)
  · exact Or.inr (Or.inr ⟨rfl, (Option.some.inj h).symm⟩)
  · exact absurd h (by simp)

/-- What a closing bracket answers is a bracket that opens, and answers nothing itself. -/
theorem Kind.isOpener_of_opener? {closer opener : Kind} (h : closer.opener? = some opener) :
    opener.isOpener = true ∧ opener.opener? = none := by
  rcases opener?_cases h with ⟨-, rfl⟩ | ⟨-, rfl⟩ | ⟨-, rfl⟩
  · exact ⟨rfl, rfl⟩
  · exact ⟨rfl, rfl⟩
  · exact ⟨rfl, rfl⟩

/-- Only one closing bracket answers an opener. -/
theorem Kind.opener?_injective {k l opener : Kind} (hk : k.opener? = some opener)
    (hl : l.opener? = some opener) : k = l := by
  rcases opener?_cases hk with ⟨rfl, rfl⟩ | ⟨rfl, rfl⟩ | ⟨rfl, rfl⟩
  · rcases opener?_cases hl with ⟨rfl, -⟩ | ⟨-, h⟩ | ⟨-, h⟩ <;> simp_all
  · rcases opener?_cases hl with ⟨-, h⟩ | ⟨rfl, -⟩ | ⟨-, h⟩ <;> simp_all
  · rcases opener?_cases hl with ⟨-, h⟩ | ⟨-, h⟩ | ⟨rfl, -⟩ <;> simp_all

/-! ### The stack -/

/-- The brackets of all kinds behind some tokens. -/
structure Nesting where
  /-- The kinds and the indices of the brackets still open, innermost first. -/
  opened : List (Kind × Nat)
  /-- The indices of the closing brackets, each with that of its opener; the last one first. -/
  pairs : List (Nat × Nat)
  deriving DecidableEq, Repr

/-- One token more, with its index.  A closing bracket has to answer the bracket opened last. -/
def Nesting.step? (n : Nesting) (entry : Token × Nat) : Option Nesting :=
  match entry.1.kind.opener? with
  | some opener =>
    match n.opened with
    | [] => none
    | (kind, j) :: opened =>
      if kind = opener then some ⟨opened, (entry.2, j) :: n.pairs⟩ else none
  | none =>
    if entry.1.kind.isOpener then some ⟨(entry.1.kind, entry.2) :: n.opened, n.pairs⟩
    else some n

/-- The brackets behind the tokens; nothing if a closing bracket meets none, or one of another
kind. -/
def nesting? (tokens : List Token) : Option Nesting :=
  tokens.zipIdx.foldlM Nesting.step? ⟨[], []⟩

theorem nesting?_append_singleton (tokens : List Token) (t : Token) :
    nesting? (tokens ++ [t]) = (nesting? tokens).bind fun n => n.step? (t, tokens.length) := by
  simp [nesting?, List.zipIdx_append, List.foldlM_append]

section

variable {n m : Nesting} {t : Token} {i : Nat} {opener : Kind}

/-- A closing bracket takes its own opener off the stack. -/
theorem Nesting.step?_closer (h : n.step? (t, i) = some m) (ho : t.kind.opener? = some opener) :
    ∃ j opened, n.opened = (opener, j) :: opened ∧ m = ⟨opened, (i, j) :: n.pairs⟩ := by
  simp only [step?, ho] at h
  split at h
  · exact absurd h (by simp)
  · next kind j opened heq =>
      split at h
      · next hkind =>
          subst hkind
          exact ⟨j, opened, heq, (Option.some.inj h).symm⟩
      · exact absurd h (by simp)

/-- Any other token is put on the stack if it opens a bracket. -/
theorem Nesting.step?_other (h : n.step? (t, i) = some m) (ho : t.kind.opener? = none) :
    m.opened = if t.kind.isOpener then (t.kind, i) :: n.opened else n.opened := by
  simp only [step?, ho] at h
  split at h
  · next hopen => rw [← Option.some.inj h, if_pos hopen]
  · next hopen => rw [← Option.some.inj h, if_neg hopen]

end

/-! ### One kind among all -/

/-- The indices of the open brackets of one kind, innermost first. -/
def Nesting.openedOf (n : Nesting) (opener : Kind) : List Nat :=
  (n.opened.filter fun entry => entry.1 = opener).map (·.2)

/-- Among the open brackets of all kinds, those of one kind are the ones that a stack for this kind
alone holds. -/
theorem openBrackets_of_nesting {opener closer : Kind} (hc : closer.opener? = some opener)
    {tokens : List Token} {n : Nesting} (hn : nesting? tokens = some n) :
    openBrackets opener closer tokens = n.openedOf opener := by
  -- both stacks are kept while going forward, so the last token comes last
  induction tokens using List.reverseRecOn generalizing n with
  | nil =>
      obtain rfl : n = ⟨[], []⟩ := (Option.some.inj hn).symm
      rfl
  | append_singleton tokens t ih =>
      rw [nesting?_append_singleton] at hn
      obtain ⟨m, hm, hstep⟩ := Option.bind_eq_some_iff.1 hn
      rw [openBrackets_append_singleton, ih hm, stackBracket]
      obtain ⟨hopener, hopen⟩ := Kind.isOpener_of_opener? hc
      cases ho : t.kind.opener? with
      | some answered =>
          -- a closing bracket of another kind takes a bracket off that the other stack never held
          obtain ⟨j, opened, hopened, rfl⟩ := Nesting.step?_closer hstep ho
          have hne : t.kind ≠ opener := fun h => by rw [h, hopen] at ho; simp at ho
          rw [if_neg hne]
          by_cases hkind : t.kind = closer
          · have hanswered : answered = opener := Option.some.inj (ho.symm.trans (hkind ▸ hc))
            rw [if_pos hkind]
            simp [Nesting.openedOf, hopened, hanswered]
          · have hanswered : answered ≠ opener := fun h =>
              hkind (Kind.opener?_injective (h ▸ ho) hc)
            rw [if_neg hkind]
            simp [Nesting.openedOf, hopened, hanswered]
      | none =>
          have hne : t.kind ≠ closer := fun h => by rw [h, hc] at ho; simp at ho
          have hopened := Nesting.step?_other hstep ho
          rw [if_neg hne]
          by_cases hkind : t.kind = opener
          · rw [if_pos (hkind ▸ hopener)] at hopened
            rw [if_pos hkind]
            simp [Nesting.openedOf, hopened, hkind]
          · rw [if_neg hkind]
            -- a bracket of another kind is put on a stack that the other one never looks at
            split at hopened
            · simp [Nesting.openedOf, hopened, hkind]
            · simp [Nesting.openedOf, hopened]

/-! ### The walk back -/

namespace Trail

/-- **The walk leads to the opener that the stack pairs with the closing bracket.**  The position is
on a closing bracket, and the tokens up to it, this bracket included, are read with a stack of all
brackets without a mismatch.  Then the walk finds an opener, the one at the index that the stack
pairs with the position, and the tokens are still the same. -/
theorem toMatchingBracket_of_nesting (t : Trail) {n : Nesting}
    (hcloser : t.kind.opener? ≠ none)
    (hnesting : nesting? (t.tokens.take (t.index + 1)) = some n) :
    t.toMatchingBracket.1 = true ∧ n.pairs.lookup t.index = some t.toMatchingBracket.2.index ∧
      t.toMatchingBracket.2.tokens = t.tokens := by
  obtain ⟨opener, ho⟩ := Option.ne_none_iff_exists'.1 hcloser
  have htake : t.tokens.take (t.index + 1) = t.before.reverse ++ [t.current] := by
    rw [List.take_add_one, take_index, getElem?_index, Option.toList_some]
  rw [htake, nesting?_append_singleton] at hnesting
  obtain ⟨m, hm, hstep⟩ := Option.bind_eq_some_iff.1 hnesting
  obtain ⟨j, opened, hopened, rfl⟩ := Nesting.step?_closer hstep ho
  -- the bracket on top of the stack is of the kind that the walk counts
  have hfound : (enclosure? opener t.kind 0 t.before).map (fun e => e.before.length) = some j := by
    have hne : opener ≠ t.kind := fun h => Kind.opener?_ne _ (h ▸ ho)
    have hsearch := enclosure?_eq_openBrackets hne 0 t.before.reverse
    rw [List.reverse_reverse, openBrackets_of_nesting ho hm] at hsearch
    rw [hsearch, Nesting.openedOf, hopened]
    simp
  obtain ⟨e, he, hj⟩ := Option.map_eq_some_iff.1 hfound
  refine ⟨?_, ?_, tokens_toMatchingBracket t⟩
  · rw [toMatchingBracket_of_closer ho, he]
  · rw [toMatchingBracket_of_closer ho, he]
    simp [index, land, hj]

/-- A bracket closed behind brackets of two other kinds, one of them still open. -/
theorem toMatchingBracket_of_nesting_mixed :
    ∃ (t : Trail) (n : Nesting), t.tokens.map (·.text) = ["\x7b", "f", "(", "a", "[", "]", ")", "\x7d"] ∧
      t.index = 6 ∧ t.kind.opener? ≠ none ∧ nesting? (t.tokens.take (t.index + 1)) = some n ∧
      t.toMatchingBracket.1 = true ∧ t.toMatchingBracket.2.index = 2 := by
  let bracket (o : Operator) : Token := ⟨.op o, o.spelling⟩
  let t : Trail := ⟨[bracket .rbrack, bracket .lbrack, ⟨.ident, "a"⟩, bracket .lparen, ⟨.ident, "f"⟩,
    bracket .lbrace], bracket .rparen, [bracket .rbrace]⟩
  have hcloser : t.kind.opener? ≠ none := by decide
  have hnesting : nesting? (t.tokens.take (t.index + 1))
      = some ⟨[(.op .lbrace, 0)], [(6, 2), (5, 4)]⟩ := by decide
  obtain ⟨hfound, hpair, -⟩ := toMatchingBracket_of_nesting t hcloser hnesting
  refine ⟨t, _, by decide, by decide, hcloser, hnesting, hfound, ?_⟩
  exact (Option.some.inj hpair).symm

end Trail

end Caret
