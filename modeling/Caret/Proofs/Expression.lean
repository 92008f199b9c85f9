/-
**The longest expression in front of a position.**

A primary expression is a chain of units: names, periods, and groups in brackets.  Which unit may
stand in front of which depends only on their shapes, and the token at a position is the start of a
unit itself, or of nothing.  A split of the tokens up to the position into units is therefore judged
as a whole, without saying in which order it is found.

The expression before a position starts at the smallest index from which the tokens can be split
into a chain.  A closing bracket that could stand in front of a chain but has no opener makes an
exception: everything before the position is taken then.

Main definitions:

* `Caret.Shape`, `Caret.Shape.precedes`, `Caret.Shape.startOf?` — how a unit looks from outside, which
  one may stand in front of which, and the shape that starts at a token;
* `Caret.IsUnit`, `Caret.Splits`, `Caret.WellChained` — units, sequences of them, and chains;
* `Caret.Fits` — a chain reaches from an index up to a position;
* `Caret.Overruns` — a chain reaches up to a position from behind a closer without its opener.

Main results:

* `Caret.IsUnit.unique` — a unit is known by where it stops;
* `Caret.fits_step`, `Caret.overruns_step` — a chain is built from its last unit;
* `Caret.isStart_operand` — the walk back ends where the expression starts;
* `Caret.Trail.expression_longest` — **the expression is the longest chain before the position**.
-/

import Mathlib.Data.List.Chain
import Mathlib.Order.Bounds.Basic
import Caret.Trail.Operand

set_option relaxedAutoImplicit false
set_option autoImplicit false

namespace Caret

/-! ### Shapes -/

/-- The shapes of the units of an expression. -/
inductive Shape where
  | name
  | period
  | parens
  | brackets
  | braces
  deriving DecidableEq, Repr

namespace Shape

/-- May a unit of the first shape stand in front of one of the second? -/
def precedes : Shape → Shape → Bool
  | period, name => true
  | name, period => true
  | name, parens => true
  | name, brackets => true
  | name, braces => true
  | braces, period => true
  | parens, period => true
  | parens, parens => true
  | parens, brackets => true
  | brackets, period => true
  | brackets, parens => true
  | brackets, brackets => true
  | _, _ => false

/-- The shape of a unit that starts with a token of this kind. -/
def startOf? : Kind → Option Shape
  | .ident => some name
  | .op .period => some period
  | .op .lparen => some parens
  | .op .lbrack => some brackets
  | .op .lbrace => some braces
  | _ => none

/-- The shape of a unit that stops with a token of this kind. -/
def endOf? : Kind → Option Shape
  | .ident => some name
  | .op .period => some period
  | .op .rparen => some parens
  | .op .rbrack => some brackets
  | .op .rbrace => some braces
  | _ => none

/-- May a unit of this shape stand in front of what starts as `following`, if that is a unit? -/
def PrecedesStart (u : Shape) (following : Option Shape) : Prop :=
  ∃ v, following = some v ∧ u.precedes v = true

theorem endOf?_of_opener? {closer opener : Kind} (h : closer.opener? = some opener) :
    endOf? closer = startOf? opener := by
  unfold Kind.opener? at h
  split at h
  · exact Option.some.inj h ▸ rfl
  · exact Option.some.inj h ▸ rfl
  · exact Option.some.inj h ▸ rfl
  · exact absurd h (by simp)

end Shape

/-! ### Units and chains -/

variable {tokens : List Token}

/-- The tokens from one index up to another are a unit: a name, a period, or the tokens from an
opening bracket through the closing one from which the walk to the matching bracket leads there. -/
inductive IsUnit (tokens : List Token) : Nat → Nat → Shape → Prop
  | name {i : Nat} {token : Token} : tokens[i]? = some token → token.kind = .ident →
      IsUnit tokens i (i + 1) .name
  | period {i : Nat} {token : Token} : tokens[i]? = some token → token.kind = .op .period →
      IsUnit tokens i (i + 1) .period
  | group {closer opener : Trail} {u : Shape} : closer.tokens = tokens →
      closer.toMatchingBracket = (true, opener) → Shape.startOf? opener.kind = some u →
      IsUnit tokens opener.index (closer.index + 1) u

/-- The tokens from one index up to another are units of these shapes, one after the other. -/
inductive Splits (tokens : List Token) : Nat → Nat → List Shape → Prop
  | nil (i : Nat) : Splits tokens i i []
  | cons {i j k : Nat} {u : Shape} {us : List Shape} : IsUnit tokens i j u →
      Splits tokens j k us → Splits tokens i k (u :: us)

/-- Each unit may stand in front of the next, and the last one in front of `following`. -/
def WellChained (us : List Shape) (following : Option Shape) : Prop :=
  us = [] ∨ ∃ v, following = some v ∧ (us ++ [v]).IsChain fun u w => u.precedes w = true

/-- The tokens from an index up to the position `stop` are well-chained units in front of
`following`. -/
def Fits (tokens : List Token) (stop : Nat) (following : Option Shape) (start : Nat) : Prop :=
  ∃ us, Splits tokens start stop us ∧ WellChained us following

/-- A closing bracket at an index, of a group of this shape, has no opener. -/
def IsUnmatched (tokens : List Token) (k : Nat) (u : Shape) : Prop :=
  ∃ closer : Trail, closer.tokens = tokens ∧ closer.index = k ∧ closer.kind.opener? ≠ none ∧
    Shape.endOf? closer.kind = some u ∧ closer.toMatchingBracket.1 = false

/-- The well-chained units up to the position `stop` reach back to a closing bracket that could stand
in front of them but has no opener. -/
def Overruns (tokens : List Token) (stop : Nat) (following : Option Shape) : Prop :=
  ∃ k u us, IsUnmatched tokens k u ∧ Splits tokens (k + 1) stop us ∧ WellChained (u :: us) following

/-- The index at which the expression before the position `stop` starts: no further back than where
a chain can start, unless there is a closing bracket without its opener. -/
def IsStart (tokens : List Token) (stop : Nat) (following : Option Shape) (start : Nat) : Prop :=
  (Overruns tokens stop following → start = 0) ∧
    (¬ Overruns tokens stop following → IsLeast {j | Fits tokens stop following j} start)

/-! ### Where a bracket leads -/

theorem Kind.opener?_ne (k : Kind) : k.opener? ≠ some k := by
  unfold opener?
  split <;> simp

namespace Trail

/-- A trail is known by its tokens and its position. -/
theorem eq_of_index {t s : Trail} (ht : t.tokens = s.tokens) (hi : t.index = s.index) : t = s := by
  have hlen : t.before.reverse.length = s.before.reverse.length := by simpa [index] using hi
  obtain ⟨hbefore, hrest⟩ := List.append_inj ht hlen
  obtain ⟨hcurrent, hafter⟩ := List.cons.inj hrest
  cases t
  cases s
  simp_all

/-- From a closing bracket the walk leads to the bracket that encloses what stands before it. -/
theorem toMatchingBracket_of_closer {t : Trail} {o : Kind} (ho : t.kind.opener? = some o) :
    t.toMatchingBracket = match enclosure? o t.kind 0 t.before with
      | some e => (true, t.land e.inside e.opener e.before)
      | none => (false, t.rewind) := by
  have hne : t.kind ≠ o := by
    rintro rfl
    exact Kind.opener?_ne _ ho
  cases he : enclosure? o t.kind 0 t.before with
  | none => simp [toMatchingBracket, ho, toOpener, hne, he]
  | some e => simp [toMatchingBracket, ho, toOpener, hne, he]

/-- From a group that is taken without an opener the walk leads to the first token. -/
theorem toMatchingBracket_of_group_none {t : Trail} {next opener : Kind}
    (h : Step.ofPair? t.kind next = some (.group opener))
    (he : enclosure? opener t.kind 0 t.before = none) : t.toMatchingBracket = (false, t.rewind) := by
  rw [toMatchingBracket_of_closer (Step.opener?_of_ofPair? h), he]

/-- From a group that is taken with its opener the walk leads to the opener. -/
theorem toMatchingBracket_of_group_some {t : Trail} {next opener : Kind} {e : Enclosure}
    (h : Step.ofPair? t.kind next = some (.group opener))
    (he : enclosure? opener t.kind 0 t.before = some e) :
    t.toMatchingBracket = (true, t.land e.inside e.opener e.before) := by
  rw [toMatchingBracket_of_closer (Step.opener?_of_ofPair? h), he]

/-- The walk that finds a bracket started from a closing one and found its enclosure. -/
theorem exists_enclosure {t s : Trail} (h : t.toMatchingBracket = (true, s)) :
    ∃ o e, t.kind.opener? = some o ∧ enclosure? o t.kind 0 t.before = some e ∧
      s = t.land e.inside e.opener e.before := by
  cases ho : t.kind.opener? with
  | none => simp [toMatchingBracket, ho] at h
  | some o =>
      rw [toMatchingBracket_of_closer ho] at h
      cases he : enclosure? o t.kind 0 t.before with
      | none => simp [he] at h
      | some e => exact ⟨o, e, rfl, he, by simpa [he] using h.symm⟩

end Trail

/-! ### Units -/

variable {i j k p : Nat} {u v : Shape} {following : Option Shape}

/-- A unit stops with a token that shows its shape. -/
theorem IsUnit.exists_last (h : IsUnit tokens i k u) :
    i < k ∧ ∃ p token, k = p + 1 ∧ tokens[p]? = some token ∧ Shape.endOf? token.kind = some u := by
  cases h with
  | name ht hk => exact ⟨Nat.lt_succ_self i, i, _, rfl, ht, by rw [hk]; rfl⟩
  | period ht hk => exact ⟨Nat.lt_succ_self i, i, _, rfl, ht, by rw [hk]; rfl⟩
  | @group closer opener u ht hm hu =>
      obtain ⟨o, e, ho, he, rfl⟩ := Trail.exists_enclosure hm
      have hlt := length_before_lt he
      have hkind : (closer.land e.inside e.opener e.before).kind = o := kind_opener_of_enclosure? he
      refine ⟨Nat.lt_succ_of_lt hlt, closer.index, closer.current, rfl, ?_, ?_⟩
      · rw [← ht]
        exact closer.getElem?_index
      · rw [hkind] at hu
        exact (Shape.endOf?_of_opener? ho).trans hu

/-- A unit is a token that closes no group, or it starts where the walk from its last token leads. -/
theorem IsUnit.last_cases {token : Token} (h : IsUnit tokens i (p + 1) u)
    (ht : tokens[p]? = some token) :
    token.kind.opener? = none ∧ i = p ∨
      token.kind.opener? ≠ none ∧ ∃ closer opener : Trail, closer.tokens = tokens ∧
        closer.index = p ∧ closer.toMatchingBracket = (true, opener) ∧ i = opener.index := by
  cases h with
  | name ht' hk =>
      obtain rfl := Option.some.inj (ht.symm.trans ht')
      exact Or.inl ⟨by rw [hk]; rfl, rfl⟩
  | period ht' hk =>
      obtain rfl := Option.some.inj (ht.symm.trans ht')
      exact Or.inl ⟨by rw [hk]; rfl, rfl⟩
  | @group closer opener u hc hm _ =>
      obtain ⟨o, -, ho, -, -⟩ := Trail.exists_enclosure hm
      rw [← hc, closer.getElem?_index] at ht
      obtain rfl := Option.some.inj ht
      refine Or.inr ⟨?_, closer, opener, hc, rfl, hm, rfl⟩
      intro hn
      exact absurd (ho.symm.trans hn) (by simp)

/-- A unit is known by where it stops. -/
theorem IsUnit.unique (h : IsUnit tokens i k u) (h' : IsUnit tokens j k v) : i = j ∧ u = v := by
  obtain ⟨-, p, token, rfl, ht, hu⟩ := h.exists_last
  obtain ⟨-, q, token', hq, ht', hv⟩ := h'.exists_last
  obtain rfl : p = q := Nat.succ.inj hq
  obtain rfl : token = token' := Option.some.inj (ht.symm.trans ht')
  refine ⟨?_, Option.some.inj (hu.symm.trans hv)⟩
  -- both stop with the same token, and the walk from it leads to one place only
  rcases h.last_cases ht with ⟨ho, rfl⟩ | ⟨ho, closer, opener, hc, hi, hm, rfl⟩
  · rcases h'.last_cases ht with ⟨-, rfl⟩ | ⟨ho', -⟩
    · rfl
    · exact absurd ho ho'
  · rcases h'.last_cases ht with ⟨ho', -⟩ | ⟨-, closer', opener', hc', hi', hm', rfl⟩
    · exact absurd ho' ho
    · obtain rfl : closer = closer' := Trail.eq_of_index (hc.trans hc'.symm) (hi.trans hi'.symm)
      rw [hm] at hm'
      rw [(Prod.mk.inj hm').2]

/-- A closing bracket without its opener does not close a group. -/
theorem IsUnmatched.not_isUnit (h : IsUnmatched tokens p u) : ¬ IsUnit tokens i (p + 1) v := by
  obtain ⟨closer, rfl, rfl, ho, -, hm⟩ := h
  intro hu
  rcases hu.last_cases closer.getElem?_index with ⟨ho', -⟩ | ⟨-, closer', opener, hc, hi, hm', -⟩
  · exact ho ho'
  · obtain rfl : closer' = closer := Trail.eq_of_index hc hi
    rw [hm'] at hm
    exact absurd hm (by simp)

/-! ### Chains, from their last unit -/

theorem Splits.snoc {us : List Shape} (h : Splits tokens i j us) (hu : IsUnit tokens j k u) :
    Splits tokens i k (us ++ [u]) := by
  induction h with
  | nil i => exact Splits.cons hu (Splits.nil k)
  | cons hv _ ih => exact Splits.cons hv (ih hu)

/-- A sequence of units is empty, or it has a last unit behind another sequence. -/
theorem Splits.last_cases {us : List Shape} (h : Splits tokens i k us) :
    us = [] ∧ i = k ∨ ∃ init u j, us = init ++ [u] ∧ Splits tokens i j init ∧
      IsUnit tokens j k u := by
  induction h with
  | nil i => exact Or.inl ⟨rfl, rfl⟩
  | @cons i j k u us hu hs ih =>
      rcases ih with ⟨rfl, rfl⟩ | ⟨init, v, m, rfl, hm, hv⟩
      · exact Or.inr ⟨[], u, i, rfl, Splits.nil i, hu⟩
      · exact Or.inr ⟨u :: init, v, m, rfl, Splits.cons hu hm, hv⟩

/-- A chain is judged against its last unit, and its last unit against what follows. -/
theorem wellChained_snoc {us : List Shape} :
    WellChained (us ++ [u]) following ↔ WellChained us (some u) ∧ u.PrecedesStart following := by
  have hsplit : ∀ v, (us ++ [u] ++ [v]).IsChain (fun u w => u.precedes w = true) ↔
      (us ++ [u]).IsChain (fun u w => u.precedes w = true) ∧ u.precedes v = true := by
    intro v
    rw [List.append_assoc, List.singleton_append, List.isChain_split]
    simp
  have hlast : WellChained us (some u) ↔ (us ++ [u]).IsChain fun u w => u.precedes w = true := by
    constructor
    · rintro (rfl | ⟨v, hv, h⟩)
      · simp
      · rwa [Option.some.inj hv]
    · intro h
      exact Or.inr ⟨u, rfl, h⟩
  rw [hlast]
  constructor
  · rintro (h | ⟨v, rfl, h⟩)
    · simp at h
    · exact ⟨((hsplit v).1 h).1, v, rfl, ((hsplit v).1 h).2⟩
  · rintro ⟨h, v, rfl, hv⟩
    exact Or.inr ⟨v, rfl, (hsplit v).2 ⟨h, hv⟩⟩

theorem fits_self : Fits tokens k following k := ⟨[], Splits.nil k, Or.inl rfl⟩

/-- Behind a unit that may stand there, a chain is that unit and a chain in front of it, or it is
empty. -/
theorem fits_step (hu : IsUnit tokens i k u) (hf : u.PrecedesStart following) :
    Fits tokens k following j ↔ j = k ∨ Fits tokens i (some u) j := by
  constructor
  · rintro ⟨us, hs, hc⟩
    rcases hs.last_cases with ⟨rfl, rfl⟩ | ⟨us, v, m, rfl, hm, hv⟩
    · exact Or.inl rfl
    · obtain ⟨rfl, rfl⟩ := hv.unique hu
      exact Or.inr ⟨us, hm, (wellChained_snoc.1 hc).1⟩
  · rintro (rfl | ⟨us, hs, hc⟩)
    · exact fits_self
    · exact ⟨us ++ [u], hs.snoc hu, wellChained_snoc.2 ⟨hc, hf⟩⟩

/-- Where no unit may stand, a chain is empty. -/
theorem fits_stop (h : ∀ i u, IsUnit tokens i k u → ¬ u.PrecedesStart following) :
    Fits tokens k following j ↔ j = k := by
  constructor
  · rintro ⟨us, hs, hc⟩
    rcases hs.last_cases with ⟨rfl, rfl⟩ | ⟨us, v, m, rfl, -, hv⟩
    · rfl
    · exact absurd (wellChained_snoc.1 hc).2 (h m v hv)
  · rintro rfl
    exact fits_self

/-- A chain with a last unit reaches a closing bracket without its opener exactly if what stands in
front of that unit does. -/
theorem overruns_step (hu : IsUnit tokens i k u) (hf : u.PrecedesStart following) :
    Overruns tokens k following ↔ Overruns tokens i (some u) := by
  constructor
  · rintro ⟨p, w, us, hun, hs, hc⟩
    rcases hs.last_cases with ⟨rfl, rfl⟩ | ⟨us, v, m, rfl, hm, hv⟩
    · -- the last unit would be closed by the bracket that has no opener
      exact absurd hu hun.not_isUnit
    · obtain ⟨rfl, rfl⟩ := hv.unique hu
      exact ⟨p, w, us, hun, hm, (wellChained_snoc.1 hc).1⟩
  · rintro ⟨p, w, us, hun, hs, hc⟩
    exact ⟨p, w, us ++ [u], hun, hs.snoc hu, (@wellChained_snoc u following (w :: us)).2 ⟨hc, hf⟩⟩

theorem overruns_of_unmatched (h : IsUnmatched tokens p u) (hf : u.PrecedesStart following) :
    Overruns tokens (p + 1) following :=
  ⟨p, u, [], h, Splits.nil (p + 1), wellChained_snoc.2 ⟨Or.inl rfl, hf⟩⟩

/-- Where neither a unit nor a closing bracket without its opener may stand, none is reached. -/
theorem not_overruns (h : ∀ i u, IsUnit tokens i k u → ¬ u.PrecedesStart following)
    (h' : ∀ p u, k = p + 1 → IsUnmatched tokens p u → ¬ u.PrecedesStart following) :
    ¬ Overruns tokens k following := by
  rintro ⟨p, w, us, hun, hs, hc⟩
  rcases hs.last_cases with ⟨rfl, rfl⟩ | ⟨us, v, m, rfl, -, hv⟩
  · exact h' p w rfl hun (wellChained_snoc.1 (show WellChained ([] ++ [w]) following from hc)).2
  · exact h m v hv ((@wellChained_snoc v following (w :: us)).1 hc).2

/-! ### Where the expression starts -/

theorem isStart_step (hu : IsUnit tokens i k u) (hf : u.PrecedesStart following)
    (h : IsStart tokens i (some u) j) : IsStart tokens k following j := by
  obtain ⟨hover, hleast⟩ := h
  rw [IsStart, overruns_step hu hf]
  refine ⟨hover, fun hno => ?_⟩
  obtain ⟨hfits, hlower⟩ := hleast hno
  constructor
  · exact (fits_step hu hf).2 (Or.inr hfits)
  · intro m hm
    rcases (fits_step hu hf).1 hm with rfl | hm
    · exact (hlower fits_self).trans hu.exists_last.1.le
    · exact hlower hm

theorem isStart_stop (h : ∀ i u, IsUnit tokens i k u → ¬ u.PrecedesStart following)
    (h' : ∀ p u, k = p + 1 → IsUnmatched tokens p u → ¬ u.PrecedesStart following) :
    IsStart tokens k following k := by
  refine ⟨fun hover => absurd hover (not_overruns h h'), fun _ => ⟨fits_self, ?_⟩⟩
  intro m hm
  exact ((fits_stop h).1 hm).ge

theorem isStart_of_unmatched (h : IsUnmatched tokens p u) (hf : u.PrecedesStart following) :
    IsStart tokens (p + 1) following 0 :=
  ⟨fun _ => rfl, fun hno => absurd (overruns_of_unmatched h hf) hno⟩

/-! ### The table and the shapes -/

namespace Step

variable {current next opener : Kind}

/-- The table takes every token that ends a unit which may stand there. -/
theorem ofPair?_ne_none (hu : Shape.endOf? current = some u)
    (hp : u.PrecedesStart (Shape.startOf? next)) : ofPair? current next ≠ none := by
  obtain ⟨v, hv, huv⟩ := hp
  unfold Shape.endOf? at hu
  unfold Shape.startOf? at hv
  split at hu <;> cases hu <;> split at hv <;> cases hv <;>
    first
    | exact absurd huv (by decide)
    | simp [ofPair?]

/-- A token that is taken alone is a unit that may stand there. -/
theorem of_take (h : ofPair? current next = some .take) :
    current = .ident ∧ Shape.PrecedesStart .name (Shape.startOf? next) ∨
      current = .op .period ∧ Shape.PrecedesStart .period (Shape.startOf? next) := by
  unfold ofPair? at h
  split at h <;> cases h
  · exact Or.inr ⟨rfl, .name, rfl, rfl⟩
  · exact Or.inl ⟨rfl, .period, rfl, rfl⟩
  · exact Or.inl ⟨rfl, .brackets, rfl, rfl⟩
  · exact Or.inl ⟨rfl, .braces, rfl, rfl⟩
  · exact Or.inl ⟨rfl, .parens, rfl, rfl⟩

/-- A group that is taken may stand there. -/
theorem of_group (h : ofPair? current next = some (.group opener)) :
    ∃ u, Shape.startOf? opener = some u ∧ u.PrecedesStart (Shape.startOf? next) := by
  unfold ofPair? at h
  split at h <;> cases h
  · exact ⟨.braces, rfl, .period, rfl, rfl⟩
  · exact ⟨.parens, rfl, .period, rfl, rfl⟩
  · exact ⟨.parens, rfl, .brackets, rfl, rfl⟩
  · exact ⟨.parens, rfl, .parens, rfl, rfl⟩
  · exact ⟨.brackets, rfl, .period, rfl, rfl⟩
  · exact ⟨.brackets, rfl, .brackets, rfl, rfl⟩
  · exact ⟨.brackets, rfl, .parens, rfl, rfl⟩

end Step

/-! ### The walk -/

section

variable {t : Trail} {next opener : Kind}

/-- Where the table refuses the token in front of the walk, the expression starts behind it. -/
theorem isStart_of_refused (h : Step.ofPair? t.kind next = none) :
    IsStart t.tokens (t.index + 1) (Shape.startOf? next) (t.index + 1) := by
  have hno : ∀ u, Shape.endOf? t.kind = some u → ¬ u.PrecedesStart (Shape.startOf? next) :=
    fun u hu hf => Step.ofPair?_ne_none hu hf h
  refine isStart_stop ?_ ?_
  · intro i u hu
    obtain ⟨-, p, token, hp, htoken, hend⟩ := hu.exists_last
    obtain rfl : t.index = p := Nat.succ.inj hp
    obtain rfl := Option.some.inj (htoken.symm.trans t.getElem?_index)
    exact hno u hend
  · intro p u hp hun
    obtain rfl : t.index = p := Nat.succ.inj hp
    obtain ⟨closer, htokens, hindex, -, hend, -⟩ := hun
    obtain rfl : closer = t := Trail.eq_of_index htokens hindex
    exact hno u hend

/-- A token that is taken alone is a unit that may stand there. -/
theorem isUnit_of_take (h : Step.ofPair? t.kind next = some .take) :
    ∃ u, IsUnit t.tokens t.index (t.index + 1) u ∧ Shape.startOf? t.kind = some u ∧
      u.PrecedesStart (Shape.startOf? next) := by
  rcases Step.of_take h with ⟨hk, hf⟩ | ⟨hk, hf⟩
  · exact ⟨.name, IsUnit.name t.getElem?_index hk, by rw [hk]; rfl, hf⟩
  · exact ⟨.period, IsUnit.period t.getElem?_index hk, by rw [hk]; rfl, hf⟩

/-- A group that is taken with its opener is a unit that may stand there. -/
theorem isUnit_of_group {e : Enclosure} (h : Step.ofPair? t.kind next = some (.group opener))
    (he : enclosure? opener t.kind 0 t.before = some e) :
    ∃ u, IsUnit t.tokens e.before.length (t.index + 1) u ∧
      Shape.startOf? e.opener.kind = some u ∧ u.PrecedesStart (Shape.startOf? next) := by
  obtain ⟨u, hu, hf⟩ := Step.of_group h
  rw [← kind_opener_of_enclosure? he] at hu
  exact ⟨u, IsUnit.group rfl (Trail.toMatchingBracket_of_group_some h he) hu, hu, hf⟩

/-- A group that is taken without an opener has an unmatched closing bracket. -/
theorem isUnmatched_of_group (h : Step.ofPair? t.kind next = some (.group opener))
    (he : enclosure? opener t.kind 0 t.before = none) :
    ∃ u, IsUnmatched t.tokens t.index u ∧ u.PrecedesStart (Shape.startOf? next) := by
  obtain ⟨u, hu, hf⟩ := Step.of_group h
  have ho := Step.opener?_of_ofPair? h
  have hm := Trail.toMatchingBracket_of_group_none h he
  refine ⟨u, ⟨t, rfl, rfl, by simp [ho], (Shape.endOf?_of_opener? ho).trans hu, by rw [hm]⟩, hf⟩

end

/-- The tokens before a position of `tokens` are `before`, nearest first. -/
def Behind (tokens before : List Token) : Prop := ∃ after, tokens = before.reverse ++ after

theorem Behind.exists_trail {t : Token} {before : List Token} (h : Behind tokens (t :: before)) :
    ∃ trail : Trail, trail.tokens = tokens ∧ trail.current = t ∧ trail.before = before := by
  obtain ⟨after, rfl⟩ := h
  exact ⟨⟨before, t, after⟩, by simp [Trail.tokens], rfl, rfl⟩

theorem Behind.of_append (passed : List Token) {before : List Token}
    (h : Behind tokens (passed ++ before)) : Behind tokens before := by
  obtain ⟨after, rfl⟩ := h
  exact ⟨passed.reverse ++ after, by simp⟩

/-- The walk back ends where the expression starts. -/
theorem isStart_operand (next : Kind) (before : List Token) (h : Behind tokens before) :
    IsStart tokens before.length (Shape.startOf? next) (operand next before).2.length := by
  -- a unit that is taken leaves the start where it is, and the walk goes on in front of it
  fun_induction operand next before with
  | case1 next =>
      refine isStart_stop ?_ ?_
      · intro i u hu
        exact absurd hu.exists_last.1 (Nat.not_lt_zero i)
      · intro p u hp
        exact absurd hp (by simp)
  | case2 next t before hpair =>
      obtain ⟨trail, rfl, rfl, rfl⟩ := h.exists_trail
      exact isStart_of_refused hpair
  | case3 next t before hpair taken rest heq ih =>
      have ih := ih (Behind.of_append [t] h)
      obtain ⟨trail, rfl, rfl, rfl⟩ := h.exists_trail
      obtain ⟨u, hu, hstart, hf⟩ := isUnit_of_take hpair
      rw [heq, show trail.current.kind = trail.kind from rfl, hstart] at ih
      exact isStart_step hu hf ih
  | case4 next t before opener hpair he =>
      obtain ⟨trail, rfl, rfl, rfl⟩ := h.exists_trail
      obtain ⟨u, hun, hf⟩ := isUnmatched_of_group hpair he
      exact isStart_of_unmatched hun hf
  | case5 next t before opener hpair e he taken rest heq ih =>
      have hbehind : Behind tokens ((t :: e.inside ++ [e.opener]) ++ e.before) := by
        rw [eq_of_enclosure? he] at h
        simpa using h
      have ih := ih (Behind.of_append _ hbehind)
      obtain ⟨trail, rfl, rfl, rfl⟩ := h.exists_trail
      obtain ⟨u, hu, hstart, hf⟩ := isUnit_of_group hpair he
      rw [heq, hstart] at ih
      exact isStart_step hu hf ih

/-- **The expression is the longest chain before the position.**  It is written from the tokens
`start` up to the position, where `start` is the smallest index from which the tokens split into
units that are well chained in front of the token at the position; but if such a chain reaches back
to a closing bracket that could stand in front of it and has no opener, `start` is zero. -/
theorem Trail.expression_longest (t : Trail) :
    let following := Shape.startOf? t.kind
    ∃ start, t.expression.1 = Token.join ((t.tokens.take t.index).drop start) ∧
      (Overruns t.tokens t.index following → start = 0) ∧
      (¬ Overruns t.tokens t.index following →
        IsLeast {j | Fits t.tokens t.index following j} start) := by
  intro following
  have hstart := isStart_operand t.kind t.before ⟨t.current :: t.after, rfl⟩
  refine ⟨(operand t.kind t.before).2.length, ?_, hstart⟩
  -- what the walk has taken and what it has left are all the tokens before the position
  have hwhole := congrArg List.reverse (append_operand t.kind t.before)
  rw [List.reverse_append] at hwhole
  have htake : t.tokens.take t.index = t.before.reverse := by
    simp [Trail.tokens, Trail.index]
  rw [htake, ← hwhole, ← List.length_reverse, List.drop_left]
  rfl

end Caret
