/-
**What an expression starts with.**

The walk back over an expression looks at two neighbouring tokens at a time.  It takes a period, an index
or a block in braces because of what stands behind it, and only then sees whether an operand stands in
front of it that can be taken as well.  If none does, the expression starts with the period, the index or
the block.  A literal is no operand that the walk takes, nor is a type that is written out: of
`"abc"[0].` it takes the index alone.

Where the brackets nest, an expression starts in this way exactly if a chain reaches up to the position
that begins with a period, an index or a block, and what stands in front of it is no operand.

Main definitions:

* `Caret.Shape.isOperand`, `Caret.Headed` — the shapes that need nothing in front of them, and chains that
  start with one;
* `Caret.LacksOperand` — what stands in front of a unit is no operand that the table allows.

Main results:

* `Caret.exists_isUnit_of_nesting` — where brackets nest, every token that can stop a unit stops one;
* `Caret.Splits.exists_append` — of two sequences of units up to a position, the longer one goes on to the
  left of the shorter one;
* `Caret.headed_iff` — a longest chain starts with an operand unless some chain lacks one;
* `Caret.Trail.expression_headed_iff` — **an expression starts with an operand unless some chain lacks
  one**;
* `Caret.Trail.expression_headless` — expressions that start with a period and with an index.
-/

import Caret.Proofs.Nesting

set_option relaxedAutoImplicit false
set_option autoImplicit false

namespace Caret

/-! ### Operands -/

/-- Does a unit of this shape need nothing in front of it?  A name and a group in parentheses do not; a
period, an index and a block in braces belong to an operand. -/
def Shape.isOperand : Shape → Bool
  | name => true
  | parens => true
  | _ => false

/-- The chain is empty, or it starts with a name or a group in parentheses. -/
def Headed (us : List Shape) : Prop := ∀ u ∈ us.head?, u.isOperand = true

/-- In front of the index `j` stands nothing, or a token that stops no unit which may stand in front of
one of the shape `u`. -/
def LacksOperand (tokens : List Token) (j : Nat) (u : Shape) : Prop :=
  ∀ p token v, j = p + 1 → tokens[p]? = some token → Shape.endOf? token.kind = some v →
    v.precedes u = false

variable {tokens : List Token} {i j k p stop : Nat} {u v : Shape} {us vs : List Shape}
  {following : Option Shape} {token : Token} {n : Nesting}

/-! ### Chains, from their first unit -/

theorem Splits.le (h : Splits tokens i k us) : i ≤ k := by
  induction h with
  | nil i => exact Nat.le_refl i
  | cons hu _ ih => exact hu.exists_last.1.le.trans ih

/-- Of two sequences of units up to a position, the longer one goes on to the left of the shorter
one. -/
theorem Splits.exists_append (h : Splits tokens i k us) (h' : Splits tokens j k vs) (hle : i ≤ j) :
    ∃ ws, us = ws ++ vs ∧ Splits tokens i j ws := by
  -- both stop at the same place, so they agree on the last unit
  induction vs using List.reverseRecOn generalizing us k with
  | nil =>
      rcases h'.last_cases with ⟨-, rfl⟩ | ⟨init, w, m, heq, -⟩
      · exact ⟨us, (List.append_nil us).symm, h⟩
      · exact absurd heq (by simp)
  | append_singleton vs v ih =>
      rcases h'.last_cases with ⟨heq, -⟩ | ⟨init, w, m, heq, hinit, hw⟩
      · exact absurd heq (by simp)
      · obtain ⟨rfl, hvw⟩ := List.append_inj' heq rfl
        obtain rfl := List.singleton_inj.1 hvw
        rcases h.last_cases with ⟨-, rfl⟩ | ⟨us, w, l, rfl, hus, hw'⟩
        · have := hinit.le
          have := hw.exists_last.1
          omega
        · obtain ⟨rfl, rfl⟩ := hw'.unique hw
          obtain ⟨ws, rfl, hws⟩ := ih hus hinit
          exact ⟨ws, List.append_assoc .., hws⟩

/-- A unit in front of a chain is judged against its first unit. -/
theorem wellChained_cons_cons : WellChained (v :: u :: us) following ↔
    v.precedes u = true ∧ WellChained (u :: us) following := by
  constructor
  · rintro (h | ⟨w, hw, h⟩)
    · exact absurd h (by simp)
    · obtain ⟨hvu, htail⟩ := List.isChain_cons_cons.1 h
      exact ⟨hvu, Or.inr ⟨w, hw, htail⟩⟩
  · rintro ⟨hvu, h | ⟨w, hw, h⟩⟩
    · exact absurd h (by simp)
    · exact Or.inr ⟨w, hw, List.isChain_cons_cons.2 ⟨hvu, h⟩⟩

/-- The part of a chain behind some of its units is a chain. -/
theorem WellChained.of_append (h : WellChained (vs ++ us) following) : WellChained us following := by
  rcases h with h | ⟨w, hw, h⟩
  · exact Or.inl (List.append_eq_nil_iff.1 h).2
  · rw [List.append_assoc] at h
    exact Or.inr ⟨w, hw, h.right_of_append⟩

/-! ### Where brackets nest -/

theorem nesting?_of_append {more : List Token} (h : nesting? (tokens ++ more) = some n) :
    ∃ m, nesting? tokens = some m := by
  rw [nesting?, List.zipIdx_append, List.foldlM_append] at h
  obtain ⟨m, hm, -⟩ := Option.bind_eq_some_iff.1 h
  exact ⟨m, hm⟩

/-- There is a trail with its position on any of the tokens. -/
theorem exists_trail_at (h : tokens[p]? = some token) :
    ∃ t : Trail, t.tokens = tokens ∧ t.index = p ∧ t.current = token := by
  obtain ⟨hlt, hget⟩ := List.getElem?_eq_some_iff.1 h
  refine ⟨⟨(tokens.take p).reverse, token, tokens.drop (p + 1)⟩, ?_, ?_, rfl⟩
  · rw [Trail.tokens, List.reverse_reverse, ← hget, List.getElem_cons_drop, List.take_append_drop]
  · rw [Trail.index, List.length_reverse, List.length_take, min_eq_left hlt.le]

/-- Where brackets nest, every closing bracket has its opener. -/
theorem toMatchingBracket_of_lt {t : Trail} (hn : nesting? (t.tokens.take stop) = some n)
    (hlt : t.index < stop) (hcloser : t.kind.opener? ≠ none) : t.toMatchingBracket.1 = true := by
  obtain ⟨more, hmore⟩ : t.tokens.take (t.index + 1) <+: t.tokens.take stop :=
    List.take_prefix_take_left (Nat.succ_le_of_lt hlt)
  rw [← hmore] at hn
  obtain ⟨m, hm⟩ := nesting?_of_append hn
  exact (t.toMatchingBracket_of_nesting hcloser hm).1

/-- Where brackets nest, every token that can stop a unit stops one. -/
theorem exists_isUnit_of_nesting (hn : nesting? (tokens.take stop) = some n) (hlt : p < stop)
    (htoken : tokens[p]? = some token) (hend : Shape.endOf? token.kind = some u) :
    ∃ i, IsUnit tokens i (p + 1) u := by
  cases ho : token.kind.opener? with
  | none =>
      have hkind : (token.kind = .ident ∧ u = .name) ∨ (token.kind = .op .period ∧ u = .period) := by
        unfold Shape.endOf? at hend
        split at hend <;> simp_all [Kind.opener?]
      rcases hkind with ⟨hkind, rfl⟩ | ⟨hkind, rfl⟩
      · exact ⟨p, .name htoken hkind⟩
      · exact ⟨p, .period htoken hkind⟩
  | some o =>
      obtain ⟨t, rfl, rfl, rfl⟩ := exists_trail_at htoken
      have ho : t.kind.opener? = some o := ho
      have hfound : t.toMatchingBracket.1 = true := toMatchingBracket_of_lt hn hlt (by simp [ho])
      have hm : t.toMatchingBracket = (true, t.toMatchingBracket.2) := by rw [← hfound]
      obtain ⟨o', e, ho', he, hland⟩ := Trail.exists_enclosure hm
      obtain rfl := Option.some.inj (ho.symm.trans ho')
      refine ⟨_, .group rfl hm ?_⟩
      rw [← hend, hland, Trail.kind, Trail.land, kind_opener_of_enclosure? he]
      exact (Shape.endOf?_of_opener? ho).symm

/-- Where brackets nest, no chain reaches back to a closing bracket without its opener. -/
theorem not_overruns_of_nesting (hn : nesting? (tokens.take stop) = some n) :
    ¬ Overruns tokens stop following := by
  rintro ⟨k, u, us, ⟨closer, rfl, rfl, ho, -, hm⟩, hs, -⟩
  rw [toMatchingBracket_of_lt hn hs.le ho] at hm
  exact absurd hm (by simp)

/-! ### The longest chain -/

/-- A longest chain starts with an operand unless some chain lacks one. -/
theorem headed_iff (hn : nesting? (tokens.take stop) = some n) (hs : Splits tokens i stop us)
    (hc : WellChained us following) (hleast : ∀ j, Fits tokens stop following j → i ≤ j) :
    Headed us ↔ ¬ ∃ j u vs, Splits tokens j stop (u :: vs) ∧ WellChained (u :: vs) following ∧
      u.isOperand = false ∧ LacksOperand tokens j u := by
  constructor
  · rintro hheaded ⟨j, u, vs, hsplits, hchain, hu, hlacks⟩
    obtain ⟨ws, rfl, hws⟩ := hs.exists_append hsplits (hleast j ⟨_, hsplits, hchain⟩)
    rcases hws.last_cases with ⟨rfl, rfl⟩ | ⟨init, w, m, rfl, -, hw⟩
    · have := hheaded u rfl
      rw [hu] at this
      exact absurd this (by simp)
    · -- the longest chain goes on in front of `u`, with the unit that should not be there
      obtain ⟨-, p, token, hp, htoken, hend⟩ := hw.exists_last
      rw [List.append_assoc] at hc
      have hwu := (wellChained_cons_cons.1 hc.of_append).1
      rw [hlacks p token w hp htoken hend] at hwu
      exact absurd hwu (by simp)
  · intro hnone u hu
    by_contra hoperand
    obtain ⟨vs, rfl⟩ := List.head?_eq_some_iff.1 hu
    refine hnone ⟨i, u, vs, hs, hc, by simpa using hoperand, ?_⟩
    intro p token v hp htoken hend
    by_contra hvu
    -- an operand in front would make the chain longer
    cases hs with
    | cons hunit hrest =>
        have hlt : p < stop := by
          have := hunit.exists_last.1
          have := hrest.le
          omega
        obtain ⟨m, hm⟩ := exists_isUnit_of_nesting hn hlt htoken hend
        rw [← hp] at hm
        have hlonger := hleast m ⟨_, .cons hm (.cons hunit hrest),
          wellChained_cons_cons.2 ⟨by simpa using hvu, hc⟩⟩
        have := hm.exists_last.1
        omega

/-! ### The expression -/

/-- The token that an operator is read as. -/
def Operator.asToken (o : Operator) : Token := ⟨.op o, o.spelling⟩

namespace Trail

/-- **An expression starts with an operand unless some chain lacks one.**  Where the brackets nest up to
the position, the expression is written from a chain of units that reaches up to it.  This chain is empty
or starts with a name or a group in parentheses, unless a chain reaches up to the position that starts
with a period, an index or a block in braces and has no operand in front of it: no name, and in front of
a period or an index no closing parenthesis or bracket either, and in front of a period no closing
brace. -/
theorem expression_headed_iff (t : Trail) {n : Nesting}
    (hn : nesting? (t.tokens.take t.index) = some n) :
    let following := Shape.startOf? t.kind
    ∃ start us, t.expression.1 = Token.join ((t.tokens.take t.index).drop start) ∧
      Splits t.tokens start t.index us ∧ WellChained us following ∧
      (Headed us ↔ ¬ ∃ j u vs, Splits t.tokens j t.index (u :: vs) ∧
        WellChained (u :: vs) following ∧ u.isOperand = false ∧ LacksOperand t.tokens j u) := by
  intro following
  obtain ⟨start, htext, -, hleast⟩ := t.expression_longest
  obtain ⟨⟨us, hs, hc⟩, hleast⟩ := hleast (not_overruns_of_nesting hn)
  exact ⟨start, us, htext, hs, hc, headed_iff hn hs hc fun j hj => hleast hj⟩

/-- An index of a literal, with a name and a call behind it. -/
theorem expression_headed_iff_index :
    let t : Trail := ⟨[Operator.rparen.asToken, ⟨.ident, "x"⟩, Operator.lparen.asToken,
      ⟨.ident, "f"⟩, Operator.period.asToken, Operator.rbrack.asToken, ⟨.int, "0"⟩,
      Operator.lbrack.asToken, ⟨.string, "\"abc\""⟩], Operator.period.asToken, []⟩
    nesting? (t.tokens.take t.index) = some ⟨[], [(8, 6), (3, 1)]⟩ ∧
      ∃ start us, "[0].f(x)" = Token.join ((t.tokens.take t.index).drop start) ∧
        Splits t.tokens start t.index us ∧ WellChained us (some .period) ∧
        (Headed us ↔ ¬ ∃ j u vs, Splits t.tokens j t.index (u :: vs) ∧
          WellChained (u :: vs) (some .period) ∧ u.isOperand = false ∧
            LacksOperand t.tokens j u) := by
  intro t
  have hn : nesting? (t.tokens.take t.index) = some ⟨[], [(8, 6), (3, 1)]⟩ := by decide
  have htext : t.expression.1 = "[0].f(x)" := by cbv
  refine ⟨hn, ?_⟩
  rw [← htext]
  exact t.expression_headed_iff hn

/-- An expression may start with a period or with an index: what stands in front of it, here a string, is
not taken. -/
theorem expression_headless :
    let selector : Trail := ⟨[⟨.ident, "foo"⟩, Operator.period.asToken, ⟨.string, "\"s\""⟩],
      Operator.period.asToken, []⟩
    let index : Trail := ⟨[Operator.rbrack.asToken, ⟨.int, "0"⟩, Operator.lbrack.asToken,
      ⟨.string, "\"abc\""⟩], Operator.period.asToken, []⟩
    (nesting? (selector.tokens.take selector.index) = some ⟨[], []⟩ ∧
        selector.expression.1 = ".foo") ∧
      (nesting? (index.tokens.take index.index) = some ⟨[], [(3, 1)]⟩ ∧
        index.expression.1 = "[0]") := by
  intro selector index
  exact ⟨⟨by decide, by cbv⟩, ⟨by decide, by cbv⟩⟩

end Trail

end Caret
