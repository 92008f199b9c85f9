/-
**Tokens written out and read again.**

What a token is depends on its own text alone.  Tokens may therefore be written out with a single
space in front of each, and with a newline where the end of a line was marked, and reading what was
written gives the same tokens: malformed numbers, literals without a closing quote and illegal
characters as much as any other, and the marks where they were.  At the end of the text the mark
comes back by itself.

Main definitions:

* `Caret.spaced` — tokens written out;
* `Caret.Lexer.tokens` — the tokens that a lexer has left.

Main results:

* `Caret.Lexer.spaced_of_rest_nil`, `Caret.Lexer.head_spaced_of_newline` — what is written for the end
  of the text, and for a newline that ends a statement;
* `Caret.Lexer.Step.exists_step_spaced` — a token that was read is read again from what is written;
* `Caret.Lexer.tokens_spaced` — a lexer in front of what is written makes the same tokens;
* `Caret.tokenize_spaced` — **reading what was written gives the same tokens**.
-/

import Caret.Proofs.LineEnd
import Caret.Proofs.Separator

set_option relaxedAutoImplicit false
set_option autoImplicit false

namespace Caret

/-! ### Writing tokens out -/

/-- Tokens written out: a space and its text for each token, and a newline for the mark of the end of
a line, but nothing for a mark behind which no token follows. -/
def spaced : List Token → List Char
  | [] => []
  | t :: ts =>
    if t = .lineEnd then if ts = [] then [] else '\n' :: spaced ts
    else ' ' :: (t.text.toList ++ spaced ts)

@[simp] theorem spaced_nil : spaced [] = [] := rfl

theorem spaced_mark : spaced [.lineEnd] = [] := rfl

theorem spaced_mark_cons {ts : List Token} (h : ts ≠ []) :
    spaced (.lineEnd :: ts) = '\n' :: spaced ts := by
  rw [spaced, if_pos rfl, if_neg h]

theorem spaced_token {t : Token} (ts : List Token) (h : t ≠ .lineEnd) :
    spaced (t :: ts) = ' ' :: (t.text.toList ++ spaced ts) := by
  rw [spaced, if_neg h]

/-- Whatever is written starts with a separator. -/
theorem startsWithSpace_spaced (ts : List Token) : StartsWithSpace (spaced ts) := by
  cases ts with
  | nil => simp [StartsWithSpace]
  | cons t ts =>
      intro c hc
      by_cases ht : t = .lineEnd
      · subst ht
        by_cases hts : ts = []
        · subst hts
          simp [spaced_mark] at hc
        · rw [spaced_mark_cons hts] at hc
          obtain rfl := Option.some.inj hc
          decide
      · rw [spaced_token ts ht] at hc
        obtain rfl := Option.some.inj hc
        decide

namespace Lexer

/-! ### What is written for what is left -/

/-- The tokens that are left. -/
def tokens (l : Lexer) : List Token := l.lexemes.map (·.token)

variable {l m : Lexer} {t : Lexeme}

theorem tokens_of_done (h : l.Done) : l.tokens = [] := by
  rw [tokens, lexemes_of_done h, List.map_nil]

theorem tokens_of_step (h : Step l t m) : l.tokens = t.token :: m.tokens := by
  rw [tokens, lexemes_of_step h, List.map_cons, tokens]

/-- At the end of the text nothing is left but a mark, for which nothing is written. -/
theorem spaced_of_rest_nil (h : l.rest = []) : spaced l.tokens = [] := by
  rcases l.done_or_step with hdone | ⟨t, m, hstep⟩
  · rw [tokens_of_done hdone, spaced_nil]
  · have htokens := tokens_of_step hstep
    cases hstep with
    | newline _ _ hr => rw [h] at hr; exact absurd hr (by simp)
    | @lineEnd blanks rest _ _ hr _ =>
        obtain ⟨-, rfl⟩ := List.append_eq_nil_iff.1 (hr.symm.trans h)
        rw [htokens, tokens_of_done (done_nil _), spaced_mark]
    | @token gap span rest kind hr _ _ hs =>
        rw [h] at hr
        exact absurd (List.append_eq_nil_iff.1 (List.append_eq_nil_iff.1 hr.symm).2).1 hs

/-- Where a newline ends a statement, a newline is written, or nothing where no token follows. -/
theorem head_spaced_of_newline (hp : l.pending = true) (h : l.rest.head? = some '\n') :
    spaced l.tokens = [] ∨ (spaced l.tokens).head? = some '\n' := by
  obtain ⟨rest, hr⟩ := List.head?_eq_some_iff.1 h
  have hstep := step_lineEnd hp (by rw [hr]; exact endsLine_newline rest)
  have htoken : l.lineEnd.1.token = .lineEnd := by
    unfold lineEnd
    simp only
    split <;> rfl
  rw [tokens_of_step hstep, htoken]
  by_cases hts : l.lineEnd.2.tokens = []
  · rw [hts]
    exact Or.inl spaced_mark
  · rw [spaced_mark_cons hts]
    exact Or.inr rfl

/-- What a move that marks no end of a line has read. -/
theorem Step.exists_scan (h : Step l t m) (ht : t.token ≠ .lineEnd) :
    ∃ text kind, text ≠ [] ∧ t.token = ⟨kind, String.ofList text⟩ ∧
      m.pending = pendingAfter l.pending kind ∧
      Trivia.cut (text ++ m.rest) = .nothing (text ++ m.rest) ∧
      Lexeme.scan (text ++ m.rest) = (kind, ⟨text, m.rest⟩) := by
  cases h with
  | newline => exact absurd rfl ht
  | lineEnd => exact absurd rfl ht
  | @token gap text rest kind _ _ _ hs hstop hscan => exact ⟨text, kind, hs, rfl, rfl, hstop, hscan⟩

/-! ### Reading what was written -/

/-- A lexer in front of a mark that was written makes the mark. -/
theorem exists_step_mark (ts : List Token) (position : Position) :
    ∃ u position', u.token = .lineEnd ∧
      Step ⟨spaced (.lineEnd :: ts), position, true⟩ u ⟨spaced ts, position', false⟩ := by
  by_cases hts : ts = []
  · subst hts
    exact ⟨_, _, rfl, @Step.lineEnd ⟨[], position, true⟩ [] [] rfl (by simp) rfl (Or.inl rfl)⟩
  · rw [spaced_mark_cons hts]
    exact ⟨_, _, rfl, @Step.newline ⟨'\n' :: spaced ts, position, true⟩ [] (spaced ts) rfl (by simp) rfl⟩

/-- A lexer in front of a token that is written behind a space reads it. -/
theorem exists_step_behind_space {text more : List Char} {kind : Kind} (position : Position)
    (pending : Bool) (ht : text ≠ []) (hstop : Trivia.cut (text ++ more) = .nothing (text ++ more))
    (hscan : Lexeme.scan (text ++ more) = (kind, ⟨text, more⟩)) :
    ∃ u position', u.token = ⟨kind, String.ofList text⟩ ∧
      Step ⟨' ' :: (text ++ more), position, pending⟩ u
        ⟨more, position', pendingAfter pending kind⟩ := by
  have hgap : Gap False [' '] := Gap.of_blanks (by simp [isBlank])
  exact ⟨_, _, rfl, @Step.token ⟨' ' :: (text ++ more), position, pending⟩ [' '] text more kind rfl
    hgap (fun _ => by simp) ht hstop hscan⟩

/-- **A token that was read is read again from what is written.** -/
theorem Step.exists_step_spaced (h : Step l t m) (ht : t.token ≠ .lineEnd) (position : Position) :
    ∃ u position', u.token = t.token ∧
      Step ⟨spaced (t.token :: m.tokens), position, l.pending⟩ u
        ⟨spaced m.tokens, position', m.pending⟩ := by
  obtain ⟨text, kind, hne, htoken, hpend, hstop, hscan⟩ := h.exists_scan ht
  have hspace := startsWithSpace_spaced m.tokens
  have hline : kind = .string ∨ kind = .char → m.rest.head? = some '\n' →
      spaced m.tokens = [] ∨ (spaced m.tokens).head? = some '\n' := by
    intro hk hnl
    refine head_spaced_of_newline ?_ hnl
    rw [hpend]
    rcases hk with rfl | rfl <;> rfl
  have hstop' := Trivia.cut_congr_rest hne hstop hspace
  have hscan' := Lexeme.scan_congr_rest hne hscan hspace spaced_of_rest_nil hline
  rw [spaced_token _ ht, htoken, hpend, String.toList_ofList]
  exact exists_step_behind_space position l.pending hne hstop' hscan'

/-- **A lexer in front of what is written makes the tokens that it was written from**, if it stands in
the same place between two statements. -/
theorem tokens_spaced (l : Lexer) (position : Position) :
    tokens ⟨spaced l.tokens, position, l.pending⟩ = l.tokens := by
  induction l using step_induction generalizing position with
  | done l hdone =>
      rw [tokens_of_done hdone, hdone.pending]
      exact tokens_of_done (done_nil position)
  | step l t m h ih =>
      rw [tokens_of_step h]
      by_cases ht : t.token = .lineEnd
      · have hm : m.pending = false := by rw [h.pending_eq, ht]; rfl
        obtain ⟨u, position', hu, hstep⟩ := exists_step_mark m.tokens position
        rw [ht, h.pending_of_mark ht, tokens_of_step hstep, hu, ← hm, ih position']
      · obtain ⟨u, position', hu, hstep⟩ := h.exists_step_spaced ht position
        rw [tokens_of_step hstep, hu, ih position']

end Lexer

theorem Lexer.ofText_of_space {cs : List Char} (h : StartsWithSpace cs) :
    ofText cs = ⟨cs, .start, false⟩ := by
  refine ofText_of_head fun hmark => ?_
  exact absurd (h _ hmark) (by decide)

theorem tokenize_eq (source : String) : tokenize source = (Lexer.ofText source.toList).tokens := rfl

/-- **Reading what was written gives the same tokens.** -/
theorem tokenize_spaced (source : String) :
    tokenize (String.ofList (spaced (tokenize source))) = tokenize source := by
  have hpend := Lexer.pending_ofText source.toList
  have h := Lexer.tokens_spaced (Lexer.ofText source.toList) .start
  rw [hpend] at h
  rw [tokenize_eq, String.toList_ofList, Lexer.ofText_of_space (startsWithSpace_spaced _)]
  exact h

end Caret
