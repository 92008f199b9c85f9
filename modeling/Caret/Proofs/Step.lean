/-
**One lexeme at a time.**

The lexer either has nothing left but a gap, or it makes one of three moves: it marks the end of a
line over the newline itself, it marks it in front of a comment or at the end of the text, or it
skips a gap and reads a token.  This module says what each move does in terms of how the text is put
together, and shows that the lexer makes exactly these moves.  What holds of all lexemes of a text
is then proved move by move.

Main definitions:

* `Caret.pendingAfter` — would the end of a line end a statement behind a token of this kind?
* `Caret.Lexer.Step` — the moves of the lexer;
* `Caret.Lexer.Done` — nothing but a gap is left.

Main results:

* `Caret.Lexer.next_eq_some_iff`, `Caret.Lexer.next_fst_eq_none_iff` — **the moves are what the
  lexer does**;
* `Caret.Lexer.done_or_step` — a lexer is done, or it makes a move;
* `Caret.Lexer.lexemes_of_step`, `Caret.Lexer.lexemes_of_done` — all lexemes, move by move;
* `Caret.Lexer.step_induction` — what every move preserves holds of every lexer.
-/

import Mathlib.Data.List.TakeWhile
import Caret.Lexer
import Caret.Proofs.Gap

set_option relaxedAutoImplicit false
set_option autoImplicit false

namespace Caret

/-- Would the end of a line end a statement behind a token of this kind?  Illegal tokens leave the
question as it was. -/
def pendingAfter (pending : Bool) (kind : Kind) : Bool :=
  if kind = .illegal then pending else kind.endsStatement

theorem Cut.run_append {p : Char → Bool} {taken rest : List Char} (ht : ∀ c ∈ taken, p c = true)
    (hr : ∀ c ∈ rest.head?, p c = false) : run p (taken ++ rest) = ⟨taken, rest⟩ := by
  rw [run, List.takeWhile_append_of_pos ht, List.dropWhile_append_of_pos ht]
  cases rest with
  | nil => simp
  | cons c rest =>
      have hc : p c = false := hr c rfl
      simp [hc]

theorem Cut.forall_mem_run (p : Char → Bool) (cs : List Char) :
    ∀ c ∈ (run p cs).taken, p c = true := fun _ hc => List.mem_takeWhile_imp hc

theorem Cut.head_rest_run (p : Char → Bool) (cs : List Char) :
    ∀ c ∈ (run p cs).rest.head?, p c = false := by
  intro c hc
  have := List.head?_dropWhile_not p cs
  rw [show cs.dropWhile p = (run p cs).rest from rfl] at this
  cases hr : (run p cs).rest with
  | nil => simp [hr] at hc
  | cons d ds =>
      obtain rfl : d = c := by simpa [hr] using hc
      simpa [hr] using this

namespace Lexer

/-! ### The moves -/

/-- At `rest`, which neither starts with a blank nor with a newline, the line ends: the text ends
there, or comments open that hold the end of the line. -/
def EndsLineAt (rest : List Char) : Prop :=
  rest = [] ∨ Trivia.Opens rest ∧ endsLine (Trivia.cut rest) = true

/-- The moves of the lexer. -/
inductive Step (l : Lexer) : Lexeme → Lexer → Prop
  /-- The end of the line is marked over its newline. -/
  | newline {blanks rest : List Char} : l.pending = true → (∀ c ∈ blanks, isBlank c = true) →
      l.rest = blanks ++ '\n' :: rest →
      Step l ⟨.lineEnd, l.position.after blanks, (l.position.after blanks).advance '\n'⟩
        ⟨rest, (l.position.after blanks).advance '\n', false⟩
  /-- The end of the line is marked in front of a comment, or where the text ends. -/
  | lineEnd {blanks rest : List Char} : l.pending = true → (∀ c ∈ blanks, isBlank c = true) →
      l.rest = blanks ++ rest → EndsLineAt rest →
      Step l ⟨.lineEnd, l.position.after blanks, l.position.after blanks⟩
        ⟨rest, l.position.after blanks, false⟩
  /-- A gap is skipped and a token is read. -/
  | token {gap text rest : List Char} {kind : Kind} : l.rest = gap ++ (text ++ rest) →
      Gap False gap → (l.pending = true → '\n' ∉ gap) → text ≠ [] →
      Trivia.cut (text ++ rest) = .nothing (text ++ rest) →
      Lexeme.scan (text ++ rest) = (kind, ⟨text, rest⟩) →
      Step l ⟨⟨kind, String.ofList text⟩, l.position.after gap, (l.position.after gap).after text⟩
        ⟨rest, (l.position.after gap).after text, pendingAfter l.pending kind⟩

/-- Nothing but a gap is left. -/
structure Done (l : Lexer) : Prop where
  pending : l.pending = false
  gap : Gap True l.rest

/-! ### The moves are what the lexer does -/

theorem isBlank_newline : isBlank '\n' = false := by decide

theorem cut_blanks {blanks : List Char} (rest : List Char) (h : ∀ c ∈ blanks, isBlank c = true) :
    Trivia.cut (blanks ++ rest) = (Trivia.cut rest).keep blanks :=
  Trivia.cut_gap_append rest (Gap.of_blanks h)

/-- The gap that a move reads a token behind is what the pass over the text takes. -/
theorem cut_of_token {gap text rest : List Char} (hg : Gap False gap)
    (hstop : Trivia.cut (text ++ rest) = .nothing (text ++ rest)) :
    Trivia.cut (gap ++ (text ++ rest)) = ⟨gap, text ++ rest⟩ := by
  rw [Trivia.cut_gap_append _ hg, hstop]
  simp [Cut.keep, Cut.nothing]

theorem endsLine_keep_blanks {blanks : List Char} {gap : Cut}
    (h : ∀ c ∈ blanks, isBlank c = true) : endsLine (gap.keep blanks) = endsLine gap := by
  have hb : '\n' ∉ blanks := fun hm => by simpa [isBlank_newline] using h _ hm
  simp [endsLine, hb]

theorem endsLine_newline (rest : List Char) : endsLine (Trivia.cut ('\n' :: rest)) = true := by
  rw [Trivia.cut_space rest (by decide)]
  simp [endsLine]

theorem endsLine_of_endsLineAt {rest : List Char} (h : EndsLineAt rest) :
    endsLine (Trivia.cut rest) = true := by
  rcases h with rfl | ⟨-, h⟩
  · simp [endsLine]
  · exact h

/-- Where a line ends and neither a blank nor a newline stands, the text ends or a comment opens. -/
theorem endsLineAt_of_endsLine {rest : List Char} (hs : ∀ c ∈ rest.head?, isSpace c = false)
    (h : endsLine (Trivia.cut rest) = true) : EndsLineAt rest := by
  cases rest with
  | nil => exact Or.inl rfl
  | cons c rest =>
      rcases Trivia.space_or_opens_or_stop c rest with hc | ho | hstop
      · rw [hs c rfl] at hc
        exact absurd hc (by decide)
      · exact Or.inr ⟨ho, h⟩
      · rw [hstop] at h
        simp [endsLine] at h

theorem next_of_endsLine {l : Lexer} (hp : l.pending = true)
    (he : endsLine (Trivia.cut l.rest) = true) : l.next = (some l.lineEnd.1, l.lineEnd.2) := by
  simp [next, hp, he]

theorem next_of_rest {l : Lexer} {kind : Kind} {text : Cut}
    (hp : (l.pending && endsLine (Trivia.cut l.rest)) = false)
    (hr : (Trivia.cut l.rest).rest ≠ []) (hs : Lexeme.scan (Trivia.cut l.rest).rest = (kind, text)) :
    l.next = (some ⟨⟨kind, .ofList text.taken⟩, l.position.after (Trivia.cut l.rest).taken,
        (l.position.after (Trivia.cut l.rest).taken).after text.taken⟩,
      ⟨text.rest, (l.position.after (Trivia.cut l.rest).taken).after text.taken,
        pendingAfter l.pending kind⟩) := by
  have he : (Trivia.cut l.rest).rest.isEmpty = false := by simpa using hr
  simp only [next, hp, he, hs, Bool.false_eq_true, if_false, pendingAfter]

/-- Where the line ends, the lexer makes one of the two moves that mark it. -/
theorem step_lineEnd {l : Lexer} (hp : l.pending = true)
    (he : endsLine (Trivia.cut l.rest) = true) : Step l l.lineEnd.1 l.lineEnd.2 := by
  obtain ⟨blanks, rest, hcut⟩ : ∃ blanks rest, Cut.run isBlank l.rest = ⟨blanks, rest⟩ :=
    ⟨_, _, rfl⟩
  have hblank : ∀ c ∈ blanks, isBlank c = true := by
    have := Cut.forall_mem_run isBlank l.rest
    rwa [hcut] at this
  have hhead : ∀ c ∈ rest.head?, isBlank c = false := by
    have := Cut.head_rest_run isBlank l.rest
    rwa [hcut] at this
  have hrest : l.rest = blanks ++ rest := by
    have := Cut.whole_run isBlank l.rest
    rw [hcut] at this
    exact this.symm
  -- behind the blanks stands the newline that is marked, or else the line ends there
  by_cases hn : ∃ ds, rest = '\n' :: ds
  · obtain ⟨ds, rfl⟩ := hn
    have hline : l.lineEnd = (⟨.lineEnd, l.position.after blanks,
        (l.position.after blanks).advance '\n'⟩, ⟨ds, (l.position.after blanks).advance '\n', false⟩)
        := by simp [lineEnd, hcut]
    rw [hline]
    exact Step.newline hp hblank hrest
  · have hline : l.lineEnd = (⟨.lineEnd, l.position.after blanks, l.position.after blanks⟩,
        ⟨rest, l.position.after blanks, false⟩) := by
      simp only [lineEnd, hcut]
      split
      · next ds => exact absurd ⟨ds, rfl⟩ hn
      · rfl
    rw [hline]
    refine Step.lineEnd hp hblank hrest (endsLineAt_of_endsLine ?_ ?_)
    · intro c hc
      cases rest with
      | nil => simp at hc
      | cons d ds =>
          obtain rfl : d = c := by simpa using hc
          have hd : d ≠ '\n' := by rintro rfl; exact hn ⟨ds, rfl⟩
          simp [isSpace, hhead d rfl, hd]
    · rwa [hrest, cut_blanks rest hblank, endsLine_keep_blanks hblank] at he

theorem step_of_next {l m : Lexer} {t : Lexeme} (h : l.next = (some t, m)) : Step l t m := by
  by_cases he : l.pending && endsLine (Trivia.cut l.rest)
  · obtain ⟨hp, he⟩ := Bool.and_eq_true_iff.1 he
    rw [next_of_endsLine hp he] at h
    obtain ⟨ht, rfl⟩ := Prod.mk.inj h
    obtain rfl := Option.some.inj ht
    exact step_lineEnd hp he
  · rw [Bool.not_eq_true] at he
    have hr : (Trivia.cut l.rest).rest ≠ [] := fun hr => by simp [next, he, hr] at h
    obtain ⟨kind, ⟨text, rest⟩, hscan⟩ : ∃ kind text, Lexeme.scan (Trivia.cut l.rest).rest
        = (kind, text) := ⟨_, _, rfl⟩
    rw [next_of_rest he hr hscan] at h
    obtain ⟨ht, rfl⟩ := Prod.mk.inj h
    obtain rfl := Option.some.inj ht
    have hwhole := Lexeme.whole_scan (Trivia.cut l.rest).rest
    rw [hscan] at hwhole
    have hleft : (Trivia.cut l.rest).rest = text ++ rest := hwhole.symm
    -- the line does not end in the gap, and the token that is read is not empty
    refine Step.token ?_ ((Trivia.gap_cut l.rest).mono fun h => hr h) ?_ ?_ ?_ ?_
    · rw [← hleft]
      exact (Trivia.whole_cut l.rest).symm
    · intro hp hn
      simp [hp, endsLine, hn] at he
    · rintro rfl
      cases hc : (Trivia.cut l.rest).rest with
      | nil => exact hr hc
      | cons c cs =>
          have hne := Lexeme.taken_scan_ne_nil c cs
          rw [← hc, hscan] at hne
          exact hne rfl
    · rw [← hleft, Trivia.cut_rest_cut]
    · rw [← hleft, hscan]

theorem next_of_step {l m : Lexer} {t : Lexeme} (h : Step l t m) : l.next = (some t, m) := by
  cases h with
  | @newline blanks rest hp hb hr =>
      have he : endsLine (Trivia.cut l.rest) = true := by
        rw [hr, cut_blanks _ hb, endsLine_keep_blanks hb, endsLine_newline]
      have hrun : Cut.run isBlank l.rest = ⟨blanks, '\n' :: rest⟩ := by
        rw [hr]
        exact Cut.run_append hb fun c hc => by
          obtain rfl : '\n' = c := by simpa using hc
          exact isBlank_newline
      rw [next_of_endsLine hp he]
      simp [lineEnd, hrun]
  | @lineEnd blanks rest hp hb hr hat =>
      have he : endsLine (Trivia.cut l.rest) = true := by
        rw [hr, cut_blanks _ hb, endsLine_keep_blanks hb, endsLine_of_endsLineAt hat]
      have hhead : ∀ c ∈ rest.head?, c = '/' := by
        rintro c hc
        rcases hat with rfl | ⟨⟨x, tail, rfl, -⟩, -⟩
        · simp at hc
        · simpa using hc.symm
      have hrun : Cut.run isBlank l.rest = ⟨blanks, rest⟩ := by
        rw [hr]
        exact Cut.run_append hb fun c hc => by rw [hhead c hc]; decide
      rw [next_of_endsLine hp he]
      simp only [Lexer.lineEnd, hrun]
      split
      · exact absurd (hhead '\n' rfl) (by decide)
      · rfl
  | @token gap text rest kind hr hg hn ht hstop hscan =>
      have hcut : Trivia.cut l.rest = ⟨gap, text ++ rest⟩ := by
        rw [hr]
        exact cut_of_token hg hstop
      have hne : text ++ rest ≠ [] := fun h => ht (List.append_eq_nil_iff.1 h).1
      have he : (l.pending && endsLine (Trivia.cut l.rest)) = false := by
        cases hp : l.pending with
        | false => rfl
        | true => simp [hcut, endsLine, hn hp, ht]
      have hscan' : Lexeme.scan (Trivia.cut l.rest).rest = (kind, ⟨text, rest⟩) := by
        rw [hcut]
        exact hscan
      rw [next_of_rest he (by rw [hcut]; exact hne) hscan', hcut]

/-- **The moves are what the lexer does.** -/
theorem next_eq_some_iff {l m : Lexer} {t : Lexeme} : l.next = (some t, m) ↔ Step l t m :=
  ⟨step_of_next, next_of_step⟩

/-- Where nothing but a gap is left, the lexer moves over it. -/
theorem next_of_done {l : Lexer} (h : l.Done) :
    l.next = (none, ⟨[], l.position.after l.rest, false⟩) := by
  simp [next, h.pending, Trivia.cut_gap h.gap]

/-- The lexer is done where nothing but a gap is left. -/
theorem next_fst_eq_none_iff {l : Lexer} : l.next.1 = none ↔ l.Done := by
  constructor
  · intro h
    by_cases he : l.pending && endsLine (Trivia.cut l.rest)
    · simp [next, he] at h
    · rw [Bool.not_eq_true] at he
      by_cases hr : (Trivia.cut l.rest).rest = []
      · refine ⟨?_, Trivia.gap_of_rest_eq_nil hr⟩
        cases hp : l.pending with
        | false => rfl
        | true => simp [hp, endsLine, hr] at he
      · rw [next_of_rest he hr rfl] at h
        simp at h
  · intro h
    rw [next_of_done h]

theorem done_nil (position : Position) : Done ⟨[], position, false⟩ := ⟨rfl, Gap.nil⟩

/-- Without a byte order mark, a lexer starts in front of the whole text. -/
theorem ofText_of_head {text : List Char} (h : text.head? ≠ some '\uFEFF') :
    ofText text = ⟨text, .start, false⟩ := by
  cases text with
  | nil => rfl
  | cons c cs => rw [ofText, if_neg fun hc => h (congrArg some hc)]

theorem pending_ofText (text : List Char) : (ofText text).pending = false := by
  cases text with
  | nil => rfl
  | cons c cs =>
      rw [ofText]
      split <;> rfl

/-! ### All lexemes, move by move -/

theorem lexemes_of_step {l m : Lexer} {t : Lexeme} (h : Step l t m) :
    l.lexemes = t :: m.lexemes := by
  rw [lexemes]
  split
  · next heq => simp [next_of_step h] at heq
  · next heq =>
      rw [next_of_step h] at heq
      obtain ⟨ht, rfl⟩ := Prod.mk.inj heq
      rw [Option.some.inj ht]

theorem lexemes_of_done {l : Lexer} (h : l.Done) : l.lexemes = [] := by
  have hnone := next_fst_eq_none_iff.2 h
  rw [lexemes]
  split
  · rfl
  · next heq => simp [heq] at hnone

/-- A lexer is done, or it makes a move. -/
theorem done_or_step (l : Lexer) : l.Done ∨ ∃ t m, Step l t m := by
  cases hnext : l.next with
  | mk t m =>
      cases t with
      | none => exact Or.inl (next_fst_eq_none_iff.1 (by rw [hnext]))
      | some t => exact Or.inr ⟨t, m, step_of_next hnext⟩

/-- All lexemes are known by the next one and the lexer behind it. -/
theorem lexemes_congr {l l' : Lexer} (h : l.next = l'.next) : l.lexemes = l'.lexemes := by
  rcases l'.done_or_step with hdone | ⟨t, m, hstep⟩
  · have hdone' : l.Done := next_fst_eq_none_iff.1 (h ▸ next_fst_eq_none_iff.2 hdone)
    rw [lexemes_of_done hdone, lexemes_of_done hdone']
  · have hstep' : Step l t m := step_of_next (h.trans (next_of_step hstep))
    rw [lexemes_of_step hstep, lexemes_of_step hstep']

/-- The lexer makes its lexemes one move after the other. -/
theorem exists_step_of_cons {l : Lexer} {t : Lexeme} {ts : List Lexeme} (h : l.lexemes = t :: ts) :
    ∃ m, Step l t m ∧ m.lexemes = ts := by
  rcases l.done_or_step with hdone | ⟨u, m, hstep⟩
  · rw [lexemes_of_done hdone] at h
    exact absurd h (by simp)
  · rw [lexemes_of_step hstep] at h
    obtain ⟨rfl, hts⟩ := List.cons.inj h
    exact ⟨m, hstep, hts⟩

/-- What holds where nothing is left, and holds before a move if it holds after it, holds of every
lexer. -/
theorem step_induction {P : Lexer → Prop} (done : ∀ l, l.Done → P l)
    (step : ∀ l t m, Step l t m → P m → P l) (l : Lexer) : P l := by
  -- a move may read nothing, but then the end of the line is no longer pending
  induction hn : l.measure using Nat.strongRecOn generalizing l with
  | ind n ih =>
      subst hn
      rcases l.done_or_step with hdone | ⟨t, m, h⟩
      · exact done l hdone
      · exact step l t m h (ih _ (measure_next_lt (next_of_step h)) m rfl)

end Lexer

end Caret
