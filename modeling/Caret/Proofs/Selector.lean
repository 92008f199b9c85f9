/-
**The expression that a name is selected from.**

Behind a period a name is selected from the expression in front of it.  The expression is written
from the tokens that the walk back has taken, but it is more than some text put together from tokens:
it is a piece of the source.  The tokens stand one after the other right in front of the period, and
what is written is the text from the start of the first to the end of the last with the gaps between
them taken out.  Only where the end of a line was marked there is a `;` in its place.

Main definitions:

* `Caret.Lexeme.span`, `Caret.Lexeme.written` — what the text holds at a lexeme, and what is written
  for it;
* `Caret.Condenses` — a piece of text, and what is left of it without its gaps;
* `Caret.SelectsBehind` — the operand of a selector stands in front of the last period before the
  cursor.

Main results:

* `Caret.Covers.condenses` — joined tokens are what is left of the text from the first to the last;
* `Caret.exists_period` — where a name is selected there is a period, last or last but one;
* `Caret.exists_run` — what the walk has taken stands in front of it;
* `Caret.selectsBehind_of_classify` — **a selected expression is a piece of the source that ends right
  before the period**.
-/

import Caret.Proofs.Seen

set_option relaxedAutoImplicit false
set_option autoImplicit false

namespace Caret

/-! ### A piece of text without its gaps -/

/-- What the text holds between the start of a lexeme and its end. -/
def Lexeme.span (text : List Char) (t : Lexeme) : List Char :=
  slice text t.start.offset t.stop.offset

/-- What is written for a lexeme: its span, but a semicolon for the mark of the end of a line. -/
def Lexeme.written (text : List Char) (t : Lexeme) : List Char :=
  if t.token = .lineEnd then [';'] else t.span text

/-- The lexemes, of which there is at least one, and the gaps between them are all of `piece`, and
`out` is what is written for the lexemes alone. -/
inductive Condenses (text : List Char) : List Lexeme → List Char → List Char → Prop
  | single (t : Lexeme) : Condenses text [t] (t.span text) (t.written text)
  | cons {t u : Lexeme} {us : List Lexeme} {piece out : List Char} :
      Gap False (slice text t.stop.offset u.start.offset) → Condenses text (u :: us) piece out →
      Condenses text (t :: u :: us)
        (t.span text ++ slice text t.stop.offset u.start.offset ++ piece) (t.written text ++ out)

section

variable {text : List Char} {start : Nat} {t u : Lexeme} {ts us : List Lexeme}

theorem Covers.of_append (h : Covers text start (ts ++ us)) : ∃ start', Covers text start' us := by
  induction ts generalizing start with
  | nil => exact ⟨start, h⟩
  | cons t ts ih => exact ih h.tail

/-- A lexeme that is not the last starts before the end of the text. -/
theorem Covers.start_lt (h : Covers text start (t :: us)) (hu : u ∈ us) :
    t.start.offset < utf8Length text := by
  have hlt := (List.rel_of_pairwise_cons h.pairwise hu).2
  have hstop := (h.ordered u (List.mem_cons_of_mem t hu)).2
  omega

/-- The first lexeme starts before any of them stops. -/
theorem Covers.start_le_stop (h : Covers text start (t :: us)) (hu : u ∈ t :: us) :
    t.start.offset ≤ u.stop.offset := by
  have hspan := (h.ordered u hu).2.1
  rcases List.mem_cons.1 hu with rfl | hu
  · exact hspan
  · have hlt := (List.rel_of_pairwise_cons h.pairwise hu).2
    omega

/-- A token is written as the text has it, and a mark as a semicolon. -/
theorem Covers.literal_eq (h : Covers text start ts) (ht : t ∈ ts) :
    t.token.literal.toList = t.written text := by
  unfold Lexeme.written
  split
  · next hmark => rw [hmark]; rfl
  · next hne =>
      obtain ⟨-, htext, hliteral⟩ := h.token t ht hne
      rw [hliteral, htext, String.toList_ofList, Lexeme.span]

theorem Covers.written_ne_nil (h : Covers text start ts) (ht : t ∈ ts) : t.written text ≠ [] := by
  unfold Lexeme.written
  split
  · simp
  · next hne =>
      obtain ⟨hstart, hstop⟩ := h.boundary t ht
      exact slice_ne_nil hstart hstop (h.token t ht hne).1

theorem Covers.join_eq (h : Covers text start ts) (hsub : us ⊆ ts) :
    (Token.join (us.map (·.token))).toList = us.flatMap (·.written text) := by
  rw [Token.join, String.toList_ofList, List.flatMap_map]
  exact List.flatMap_congr fun t ht => h.literal_eq (hsub ht)

/-- Something is written for any tokens at all. -/
theorem Covers.join_eq_empty_iff (h : Covers text start ts) (hsub : us ⊆ ts) :
    Token.join (us.map (·.token)) = "" ↔ us = [] := by
  constructor
  · intro hjoin
    have hwritten := h.join_eq hsub
    rw [hjoin] at hwritten
    cases us with
    | nil => rfl
    | cons t us =>
        have hnil := List.append_eq_nil_iff.1 (hwritten.symm.trans String.toList_empty)
        exact absurd hnil.1 (h.written_ne_nil (hsub List.mem_cons_self))
  · rintro rfl
    rfl

/-- **Joined tokens are what is left of the text** from the first of them to the last when the gaps
between them are taken out, if another lexeme follows. -/
theorem Covers.condenses {last period : Lexeme} {rest : List Lexeme}
    (h : Covers text start (t :: us ++ period :: rest)) (hlast : last ∈ (t :: us).getLast?) :
    Condenses text (t :: us) (slice text t.start.offset last.stop.offset)
      ((t :: us).flatMap (·.written text)) := by
  induction us generalizing t start with
  | nil =>
      obtain rfl := Option.some.inj hlast
      rw [List.flatMap_singleton]
      exact Condenses.single t
  | cons u us ih =>
      have htail : Covers text t.stop.offset (u :: us ++ period :: rest) := h.tail
      have hlast' : last ∈ (u :: us).getLast? := by rwa [List.getLast?_cons_cons] at hlast
      -- the text from the first to the last is the first, a gap, and the rest of them
      have hspan : t.start.offset ≤ t.stop.offset := (h.ordered t List.mem_cons_self).2.1
      have hgap : t.stop.offset ≤ u.start.offset :=
        (List.rel_of_pairwise_cons h.pairwise List.mem_cons_self).1
      have hpiece : u.start.offset ≤ last.stop.offset :=
        htail.start_le_stop (List.mem_append_left _ (List.mem_of_getLast? hlast'))
      rw [← slice_append_slice (hspan.trans hgap) hpiece, ← slice_append_slice hspan hgap]
      refine Condenses.cons ?_ (ih htail hlast')
      -- the gap is not the one at the end of the text, because the period is still to come
      have hmem : (t.stop.offset, u.start.offset) ∈
          gapBounds start (utf8Length text) (t :: u :: us ++ period :: rest) :=
        List.mem_cons_of_mem _ List.mem_cons_self
      refine (h.gap _ hmem).mono fun hend => ?_
      have hlt := htail.start_lt (u := period) (by simp)
      exact absurd hend (Nat.ne_of_lt hlt)

end

/-! ### Where the classifier finds a selector -/

section

variable {operand : Option String} {typed : String}

namespace Context

theorem behind_eq_selector {t : Trail} {word : String}
    (h : behind t word = .selector operand typed) :
    t.kind = .op .period ∧
      operand = if t.expression.1 = "" then none else some t.expression.1 := by
  unfold behind at h
  split at h
  · next hk => exact ⟨hk, (Context.selector.inj h).1.symm⟩
  · exact absurd h (by simp)
  · exact absurd h (by simp)
  · exact absurd h (by simp)

/-- A selector is found at a period, which is the last token or, before a name, the last but one. -/
theorem ofTrail_eq_selector {t : Trail} {distance : Nat}
    (h : ofTrail t distance = .selector operand typed) :
    ∃ s : Trail, (s = t ∨ t.stepBack? = some s) ∧ s.kind = .op .period ∧
      operand = if s.expression.1 = "" then none else some s.expression.1 := by
  unfold ofTrail at h
  split at h
  · unfold within at h
    split at h <;> exact absurd h (by simp)
  · split at h
    · exact absurd h (by simp)
    · exact ⟨t, Or.inl rfl, behind_eq_selector h⟩
    · split at h
      · exact absurd h (by simp)
      · next s hs => exact ⟨s, Or.inr hs, behind_eq_selector h⟩

end Context

/-- The operand of a selector, read from the lexemes of a text in front of a cursor: they are `front`,
the `run` that makes up the operand, the period behind it, and `behind`. -/
structure SelectsBehind (text : List Char) (cursor : Nat) (operand : Option String)
    (front run : List Lexeme) (period : Lexeme) (behind after : List Lexeme) : Prop where
  lexemes : Lexeme.ofText text = front ++ run ++ period :: (behind ++ after)
  /-- The period and what stands before it start before the cursor, and so does `behind`. -/
  seen : ∀ u ∈ front ++ run ++ period :: behind, u.start.offset < cursor
  unseen : ∀ u ∈ after, cursor ≤ u.start.offset
  /-- The period is the last of them or the last but one. -/
  length_behind : behind.length ≤ 1
  kind : period.token.kind = .op .period
  /-- The run is what the walk back from the period takes. -/
  taken : (run.map (·.token)).reverse
    = (Caret.operand (.op .period) ((front ++ run).map (·.token)).reverse).1
  eq_none_iff : operand = none ↔ run = []
  /-- The operand is the text from the start of the run to its end without the gaps. -/
  condenses : ∀ e ∈ operand, ∃ first ∈ run.head?, ∃ last ∈ run.getLast?,
    Condenses text run (slice text first.start.offset last.stop.offset) e.toList

/-- Where a name is selected, there is a period in front of the cursor, last or last but one. -/
theorem exists_period {source : String} {cursor : Nat}
    (h : classify source cursor = .selector operand typed) :
    ∃ left period behind after, Lexeme.ofText source.toList = left ++ period :: (behind ++ after) ∧
      (∀ u ∈ left ++ period :: behind, u.start.offset < floorBoundary source.toList cursor) ∧
      (∀ u ∈ after, floorBoundary source.toList cursor ≤ u.start.offset) ∧ behind.length ≤ 1 ∧
      period.token.kind = .op .period ∧
      let word := Token.join (Caret.operand (.op .period) (left.map (·.token)).reverse).1.reverse
      operand = if word = "" then none else some word := by
  have ho := ordered_ofText source.toList
  rcases exists_lastBefore ho (floorBoundary source.toList cursor) with
    hnone | ⟨before, t, after, hlast⟩
  · rw [classify_of_none rfl hnone] at h
    exact absurd h (by simp)
  · have hseen := hlast.lt_of_mem ho
    rw [classify_of_lastBefore rfl hlast] at h
    obtain ⟨s, hs, hk, hoperand⟩ := Context.ofTrail_eq_selector h
    rw [Trail.expression_fst, hk] at hoperand
    rcases hs with rfl | hs
    · refine ⟨before, t, [], after, hlast.eq, hseen, hlast.le, by simp, hk, ?_⟩
      simpa using hoperand
    · -- the last token is the name being typed, and the period stands before it
      rcases List.eq_nil_or_concat before with rfl | ⟨left, period, rfl⟩
      · exact absurd hs (by simp [Trail.stepBack?])
      · have hs' : ⟨(left.map (·.token)).reverse, period.token, [t.token]⟩ = s := by
          simpa [Trail.stepBack?, Trail.land] using hs
        subst hs'
        refine ⟨left, period, [t], after, ?_, ?_, hlast.le, le_rfl, hk, hoperand⟩
        · simpa using hlast.eq
        · simpa using hseen

/-- What the walk back has taken stands together at the end. -/
theorem exists_run (next : Kind) (left : List Lexeme) :
    ∃ front run, left = front ++ run ∧
      (run.map (·.token)).reverse = (Caret.operand next (left.map (·.token)).reverse).1 := by
  have h := append_operand next (left.map (·.token)).reverse
  rw [← List.map_reverse] at h
  obtain ⟨run, front, hleft, hrun, -⟩ := List.map_eq_append_iff.1 h.symm
  refine ⟨front.reverse, run.reverse, ?_, ?_⟩
  · rw [← List.reverse_append, ← hleft, List.reverse_reverse]
  · rw [List.map_reverse, List.reverse_reverse, hrun, List.map_reverse]

/-- **A selected expression is a piece of the source that ends right before the period.** -/
theorem selectsBehind_of_classify {source : String} {cursor : Nat}
    (h : classify source cursor = .selector operand typed) :
    ∃ front run period behind after,
      SelectsBehind source.toList (floorBoundary source.toList cursor) operand front run period
        behind after := by
  obtain ⟨left, period, behind, after, hlex, hseen, hunseen, hlen, hk, hoperand⟩ := exists_period h
  obtain ⟨front, run, rfl, htaken⟩ := exists_run (.op .period) left
  obtain ⟨start, hcovers⟩ :
      ∃ start, Covers source.toList start (run ++ period :: (behind ++ after)) := by
    have hall := Lexer.covers_lexemes _ (Lexer.inText_ofText source.toList)
    rw [← Lexeme.ofText, hlex, List.append_assoc] at hall
    exact hall.of_append
  have hsub : run ⊆ run ++ period :: (behind ++ after) := List.subset_append_left _ _
  have hempty := hcovers.join_eq_empty_iff hsub
  simp only [← htaken, List.reverse_reverse] at hoperand
  refine ⟨front, run, period, behind, after, hlex, hseen, hunseen, hlen, hk, htaken, ?_, ?_⟩
  · rw [hoperand, ← hempty]
    split
    · next hjoin => simp [hjoin]
    · next hjoin => simp [hjoin]
  · intro e he
    cases run with
    | nil => rw [hoperand] at he; exact absurd he (by simp)
    | cons first us =>
        have hjoin : Token.join ((first :: us).map (·.token)) ≠ "" := by
          intro hjoin
          exact absurd (hempty.1 hjoin) (by simp)
        rw [hoperand, if_neg hjoin] at he
        obtain rfl := Option.some.inj he
        have hlast := List.getLast?_eq_some_getLast (List.cons_ne_nil first us)
        refine ⟨first, rfl, _, hlast, ?_⟩
        rw [hcovers.join_eq hsub]
        exact hcovers.condenses hlast

/-- The tokens of the operand are written without the blanks that stand between them in the source. -/
theorem selectsBehind_of_classify_gaps :
    classify "a . b." 6 = .selector (some "a.b") "" ∧
      ∃ front run period behind after,
        SelectsBehind "a . b.".toList (floorBoundary "a . b.".toList 6) (some "a.b") front run period
          behind after := by
  have hlexemes : Lexeme.ofText "a . b.".toList =
      [⟨⟨.ident, "a"⟩, ⟨1, 1, 0⟩, ⟨1, 2, 1⟩⟩, ⟨⟨.op .period, "."⟩, ⟨1, 3, 2⟩, ⟨1, 4, 3⟩⟩,
        ⟨⟨.ident, "b"⟩, ⟨1, 5, 4⟩, ⟨1, 6, 5⟩⟩, ⟨⟨.op .period, "."⟩, ⟨1, 6, 5⟩, ⟨1, 7, 6⟩⟩] :=
    calc Lexeme.ofText "a . b.".toList
        = _ :: Lexer.lexemes ⟨" . b.".toList, ⟨1, 2, 1⟩, true⟩ :=
          Lexer.lexemes_of_step (Lexer.step_of_next (by decide))
      _ = _ :: _ :: Lexer.lexemes ⟨" b.".toList, ⟨1, 4, 3⟩, false⟩ :=
          congrArg _ (Lexer.lexemes_of_step (Lexer.step_of_next (by decide)))
      _ = _ :: _ :: _ :: Lexer.lexemes ⟨".".toList, ⟨1, 6, 5⟩, true⟩ :=
          congrArg _ (congrArg _ (Lexer.lexemes_of_step (Lexer.step_of_next (by decide))))
      _ = _ :: _ :: _ :: _ :: Lexer.lexemes ⟨[], ⟨1, 7, 6⟩, false⟩ :=
          congrArg _ (congrArg _ (congrArg _ (Lexer.lexemes_of_step (Lexer.step_of_next (by decide)))))
      _ = _ := congrArg _ (congrArg _ (congrArg _ (congrArg _
          (Lexer.lexemes_of_done ⟨rfl, Gap.nil⟩))))
  have hlast : LastBefore (Lexeme.ofText "a . b.".toList) 6 [_, _, _] _ [] :=
    ⟨hlexemes, by decide, by simp⟩
  have hwalk : Caret.operand (.op .period)
      [⟨.ident, "b"⟩, ⟨.op .period, "."⟩, ⟨.ident, "a"⟩]
        = ([⟨.ident, "b"⟩, ⟨.op .period, "."⟩, ⟨.ident, "a"⟩], []) := by
    simp [operand, Step.ofPair?]
  have h : classify "a . b." 6 = .selector (some "a.b") "" := by
    rw [classify_of_lastBefore (by decide) hlast]
    change Context.behind ⟨_, ⟨.op .period, "."⟩, []⟩ "" = _
    rw [Context.behind, Trail.kind, Trail.expression_fst]
    simp only [Trail.kind, List.reverse_cons, List.reverse_nil, List.nil_append, List.cons_append,
      List.map_cons, List.map_nil, hwalk]
    decide
  exact ⟨h, selectsBehind_of_classify h⟩

end

end Caret
