/-
**The innermost unanswered bracket.**

The walk back to an opening bracket keeps one number, how many closing brackets are still to be
answered.  What it finds can be said without it.  Between the bracket that is found and the position
there are as many opening brackets as closing ones; and wherever one starts to read in between, up to
the position there are never more opening brackets than closing ones.  In front of a position there is
at most one bracket like that.  Nothing is asked of the tokens themselves: brackets may be left over on
either side.

Main definitions:

* `Caret.Answers` — tokens that answer a number of closing brackets, and no opening bracket among them
  is left over on the way back;
* `Caret.IsInnermost` — an index holds the innermost unanswered opening bracket before a position.

Main results:

* `Caret.enclosure?_eq_some_iff` — what the search finds, and when;
* `Caret.isInnermost_iff_enclosure?` — the innermost bracket is the one that the search finds;
* `Caret.Trail.toOpener_exact` — **the walk ends on the innermost unanswered bracket, or on the first
  token if there is none**.
-/

import Caret.Proofs.EnclosingBrace

set_option relaxedAutoImplicit false
set_option autoImplicit false

namespace Caret

/-- The number of tokens of a kind. -/
def countKind (k : Kind) (tokens : List Token) : Nat := tokens.countP fun t => t.kind = k

section

variable {k : Kind} {t : Token} {tokens : List Token}

@[simp] theorem countKind_nil (k : Kind) : countKind k [] = 0 := rfl

@[simp] theorem countKind_cons_self (h : t.kind = k) :
    countKind k (t :: tokens) = countKind k tokens + 1 := by
  simp [countKind, h]

@[simp] theorem countKind_cons_ne (h : t.kind ≠ k) :
    countKind k (t :: tokens) = countKind k tokens := by
  simp [countKind, h]

@[simp] theorem countKind_reverse (k : Kind) (tokens : List Token) :
    countKind k tokens.reverse = countKind k tokens :=
  List.countP_reverse

end

/-! ### Answering closing brackets -/

variable {opener closer : Kind}

/-- Tokens, nearest first, with `depth` opening brackets more than closing ones, and not more than that
in any part of them next to the position. -/
def Answers (opener closer : Kind) (depth : Nat) (inside : List Token) : Prop :=
  countKind opener inside = countKind closer inside + depth ∧
    ∀ near, near <+: inside → countKind opener near ≤ countKind closer near + depth

section

variable {depth : Nat} {t : Token} {inside : List Token}

/-- What holds of the nearest tokens holds of none of them, and of the first one with some behind it. -/
theorem forall_prefix_cons {p : List Token → Prop} :
    (∀ near, near <+: t :: inside → p near) ↔ p [] ∧ ∀ near, near <+: inside → p (t :: near) := by
  constructor
  · intro h
    exact ⟨h [] List.nil_prefix, fun near hnear => h _ (List.cons_prefix_cons.2 ⟨rfl, hnear⟩)⟩
  · rintro ⟨hnil, hcons⟩ near hnear
    rcases List.prefix_cons_iff.1 hnear with rfl | ⟨later, rfl, hlater⟩
    · exact hnil
    · exact hcons later hlater

theorem answers_nil_iff : Answers opener closer depth [] ↔ depth = 0 := by
  simp [Answers, eq_comm]

/-- A closing bracket asks for one opening bracket more. -/
theorem answers_closer (hne : opener ≠ closer) (h : t.kind = closer) :
    Answers opener closer depth (t :: inside) ↔ Answers opener closer (depth + 1) inside := by
  have ho : t.kind ≠ opener := fun ho => hne (ho.symm.trans h)
  simp only [Answers, forall_prefix_cons, countKind_cons_self h, countKind_cons_ne ho, countKind_nil]
  have hswap : ∀ n, n + 1 + depth = n + (depth + 1) := by omega
  simp [hswap]

/-- An opening bracket answers one closing bracket, which there has to be. -/
theorem answers_opener_succ (hne : opener ≠ closer) (h : t.kind = opener) :
    Answers opener closer (depth + 1) (t :: inside) ↔ Answers opener closer depth inside := by
  have hc : t.kind ≠ closer := fun hc => hne (h.symm.trans hc)
  simp only [Answers, forall_prefix_cons, countKind_cons_self h, countKind_cons_ne hc, countKind_nil,
    ← Nat.add_assoc, Nat.add_right_cancel_iff, Nat.add_le_add_iff_right]
  simp

theorem not_answers_opener_zero (hne : opener ≠ closer) (h : t.kind = opener) :
    ¬ Answers opener closer 0 (t :: inside) := by
  have hc : t.kind ≠ closer := fun hc => hne (h.symm.trans hc)
  rintro ⟨-, hnear⟩
  have hone := hnear [t] ⟨inside, rfl⟩
  rw [countKind_cons_self h, countKind_cons_ne hc] at hone
  exact absurd hone (by simp)

/-- Any other token makes no difference. -/
theorem answers_other (hc : t.kind ≠ closer) (ho : t.kind ≠ opener) :
    Answers opener closer depth (t :: inside) ↔ Answers opener closer depth inside := by
  simp [Answers, forall_prefix_cons, hc, ho]

end

/-! ### What the search finds -/

/-- The search finds an opening bracket behind tokens that answer the closing brackets it was told of,
whenever there is one. -/
theorem enclosure?_eq_some_iff (hne : opener ≠ closer) {depth : Nat} {before : List Token}
    {e : Enclosure} :
    enclosure? opener closer depth before = some e ↔
      before = e.inside ++ e.opener :: e.before ∧ e.opener.kind = opener ∧
        Answers opener closer depth e.inside := by
  constructor
  · intro h
    refine ⟨eq_of_enclosure? h, kind_opener_of_enclosure? h, ?_⟩
    -- the search looks at the nearest token first
    induction before generalizing depth e with
    | nil => simp [enclosure?] at h
    | cons t before ih =>
        by_cases hc : t.kind = closer
        · rw [enclosure?_closer hc] at h
          obtain ⟨e, he, rfl⟩ := Option.map_eq_some_iff.1 h
          exact (answers_closer hne hc).2 (ih he)
        · by_cases ho : t.kind = opener
          · cases depth with
            | zero =>
                rw [enclosure?_opener_zero hne ho] at h
                obtain rfl := Option.some.inj h
                exact answers_nil_iff.2 rfl
            | succ depth =>
                rw [enclosure?_opener_succ hne ho] at h
                obtain ⟨e, he, rfl⟩ := Option.map_eq_some_iff.1 h
                exact (answers_opener_succ hne ho).2 (ih he)
          · rw [enclosure?_other hc ho] at h
            obtain ⟨e, he, rfl⟩ := Option.map_eq_some_iff.1 h
            exact (answers_other hc ho).2 (ih he)
  · obtain ⟨inside, bracket, front⟩ := e
    rintro ⟨rfl, hopener, hanswers⟩
    simp only at hopener hanswers ⊢
    -- the tokens inside are passed one by one
    induction inside generalizing depth with
    | nil =>
        obtain rfl := answers_nil_iff.1 hanswers
        exact enclosure?_opener_zero hne hopener
    | cons t inside ih =>
        rw [List.cons_append]
        by_cases hc : t.kind = closer
        · rw [enclosure?_closer hc, ih ((answers_closer hne hc).1 hanswers)]
          rfl
        · by_cases ho : t.kind = opener
          · cases depth with
            | zero => exact absurd hanswers (not_answers_opener_zero hne ho)
            | succ depth =>
                rw [enclosure?_opener_succ hne ho, ih ((answers_opener_succ hne ho).1 hanswers)]
                rfl
          · rw [enclosure?_other hc ho, ih ((answers_other hc ho).1 hanswers)]
            rfl

/-! ### The innermost bracket -/

/-- The tokens strictly between the indices `j` and `i`. -/
def between (tokens : List Token) (j i : Nat) : List Token := (tokens.take i).drop (j + 1)

/-- The index `j` holds the innermost opening bracket that is not answered before the position `i`: from
there up to the position as many brackets are opened as closed, and no end of that stretch opens more
brackets than it closes. -/
structure IsInnermost (opener closer : Kind) (tokens : List Token) (i j : Nat) : Prop where
  lt : j < i
  kind : tokens[j]?.map (·.kind) = some opener
  balanced : countKind opener (between tokens j i) = countKind closer (between tokens j i)
  closed : ∀ later, later <:+ between tokens j i → countKind opener later ≤ countKind closer later

/-- The two numbers agree, and from no token on there are more opening brackets: read backwards, the
tokens answer nothing but themselves. -/
theorem answers_reverse_iff {tokens : List Token} :
    Answers opener closer 0 tokens.reverse ↔ countKind opener tokens = countKind closer tokens ∧
      ∀ later, later <:+ tokens → countKind opener later ≤ countKind closer later := by
  simp only [Answers, countKind_reverse, Nat.add_zero]
  refine and_congr_right fun _ => ⟨fun h later hlater => ?_, fun h near hnear => ?_⟩
  · simpa using h later.reverse (List.reverse_prefix.2 hlater)
  · simpa using h near.reverse (by simpa using List.reverse_suffix.2 hnear)

/-- The tokens before a position, taken apart at the index of one of them. -/
theorem take_eq_append_between {tokens : List Token} {i j : Nat} {t : Token} (hlt : j < i)
    (h : tokens[j]? = some t) : tokens.take i = tokens.take j ++ t :: between tokens j i := by
  have hget : (tokens.take i)[j]? = some t := by rw [List.getElem?_take_of_lt hlt, h]
  calc tokens.take i
      = (tokens.take i).take j ++ (tokens.take i).drop j := (List.take_append_drop j _).symm
    _ = tokens.take j ++ t :: between tokens j i := by
        rw [List.take_take, Nat.min_eq_left (Nat.le_of_lt hlt), List.drop_eq_getElem?_toList_append,
          hget]
        rfl

/-- Taken apart like this, they show what stands in between. -/
theorem between_of_take {tokens front inside : List Token} {i : Nat} {t : Token}
    (h : tokens.take i = front ++ t :: inside) : between tokens front.length i = inside := by
  rw [between, h, List.append_cons]
  exact List.drop_left' (by simp)

/-- The innermost bracket is the one that the search finds. -/
theorem isInnermost_iff_enclosure? (hne : opener ≠ closer) (t : Trail) (j : Nat) :
    IsInnermost opener closer t.tokens t.index j ↔
      ∃ e, enclosure? opener closer 0 t.before = some e ∧ e.before.length = j := by
  constructor
  · rintro ⟨hlt, hkind, hbalanced, hclosed⟩
    obtain ⟨bracket, hbracket, rfl⟩ := Option.map_eq_some_iff.1 hkind
    have hsplit : t.before.reverse = t.tokens.take j ++ bracket :: between t.tokens j t.index := by
      rw [← Trail.take_index]
      exact take_eq_append_between hlt hbracket
    refine ⟨⟨(between t.tokens j t.index).reverse, bracket, (t.tokens.take j).reverse⟩, ?_, ?_⟩
    · refine (enclosure?_eq_some_iff hne).2 ⟨?_, rfl, answers_reverse_iff.2 ⟨hbalanced, hclosed⟩⟩
      rw [← List.reverse_reverse t.before, hsplit]
      simp
    · have hindex := t.index_lt_length
      rw [Trail.length] at hindex
      simp only [List.length_reverse, List.length_take]
      omega
  · rintro ⟨e, he, rfl⟩
    obtain ⟨hbefore, hopener, hanswers⟩ := (enclosure?_eq_some_iff hne).1 he
    have hindex : e.before.length < t.index := length_before_lt he
    have hfront : t.tokens.take t.index = e.before.reverse ++ e.opener :: e.inside.reverse := by
      rw [Trail.take_index, hbefore]
      simp
    have hbetween : between t.tokens e.before.length t.index = e.inside.reverse := by
      simpa using between_of_take hfront
    have hat : t.tokens[e.before.length]? = some e.opener := by
      rw [← List.getElem?_take_of_lt hindex, hfront]
      exact getElem?_reverse_append e.before e.opener e.inside.reverse
    rw [← List.reverse_reverse e.inside, answers_reverse_iff, ← hbetween] at hanswers
    exact ⟨hindex, by simp [hat, hopener], hanswers.1, hanswers.2⟩

/-! ### The walk -/

namespace Trail

/-- **The walk ends on the innermost unanswered bracket, or on the first token if there is none.**  On an
opening bracket the walk stays.  From any other token it finds a bracket exactly if some index before the
position holds the innermost unanswered one; only one index can, and the walk ends there.  The tokens
are still the same, and nothing is asked of them. -/
theorem toOpener_exact (hne : opener ≠ closer) (t : Trail) :
    (t.kind = opener → t.toOpener opener closer = (true, t)) ∧
    (t.kind ≠ opener →
      ((t.toOpener opener closer).1 = true ↔
        ∃ j, IsInnermost opener closer t.tokens t.index j) ∧
      (∀ j, IsInnermost opener closer t.tokens t.index j →
        (t.toOpener opener closer).2.index = j ∧
          ∀ k, IsInnermost opener closer t.tokens t.index k → k = j) ∧
      ((¬ ∃ j, IsInnermost opener closer t.tokens t.index j) →
        (t.toOpener opener closer).1 = false ∧ (t.toOpener opener closer).2.index = 0)) ∧
    (t.toOpener opener closer).2.tokens = t.tokens := by
  refine ⟨fun hk => by rw [toOpener, if_pos hk], fun hk => ?_, tokens_toOpener opener closer t⟩
  rw [toOpener, if_neg hk]
  simp only [isInnermost_iff_enclosure? hne]
  cases he : enclosure? opener closer 0 t.before with
  | none => simp
  | some e => simp [index, land]

/-- Two closing brackets are left over in front of the bracket that is found, and an opening one behind
the position. -/
theorem toOpener_exact_unbalanced :
    ∃ t : Trail, t.tokens.map (·.text) = [")", ")", "(", "a", "(", ")", "(", ")", "b", "("] ∧
      t.index = 8 ∧ Kind.op .lparen ≠ .op .rparen ∧ t.kind ≠ .op .lparen ∧
      IsInnermost (.op .lparen) (.op .rparen) t.tokens 8 2 ∧
      (t.toOpener (.op .lparen) (.op .rparen)).1 = true ∧
      (t.toOpener (.op .lparen) (.op .rparen)).2.index = 2 := by
  let bracket (o : Operator) : Token := ⟨.op o, o.spelling⟩
  let t : Trail := ⟨[bracket .rparen, bracket .lparen, bracket .rparen, bracket .lparen, ⟨.ident, "a"⟩,
    bracket .lparen, bracket .rparen, bracket .rparen], ⟨.ident, "b"⟩, [bracket .lparen]⟩
  have hne : Kind.op .lparen ≠ .op .rparen := by decide
  have hkind : t.kind ≠ .op .lparen := by decide
  obtain ⟨-, hwalk, -⟩ := toOpener_exact hne t
  obtain ⟨hfound, hindex, -⟩ := hwalk hkind
  have hinnermost : IsInnermost (.op .lparen) (.op .rparen) t.tokens 8 2 :=
    (isInnermost_iff_enclosure? hne t 2).2 ⟨_, rfl, rfl⟩
  exact ⟨t, by decide, rfl, hne, hkind, hinnermost, hfound.2 ⟨2, hinnermost⟩, (hindex 2 hinnermost).1⟩

end Trail

end Caret
