/-
**The tokenizer as a loop.**

A scanner that stands in the middle of a text finds the next lexeme by a loop: it skips blanks, and
then it marks the end of a line, skips a comment and starts over, or reads a lexeme and slices its
text out of the whole.  The lexer takes the gap in one piece and decides from it.  Both do the same,
because skipping blanks does not change what the lexer finds next, and skipping a comment does not
either unless the line ends there.

Main definitions:

* `Caret.Checked.Scanner.next?` — the next lexeme, and the scanner behind it;
* `Caret.Checked.Scanner.collect?` — the tokens that start before an offset.

Main results:

* `Caret.Lexer.next_over_blanks`, `Caret.Lexer.next_over_gap` — skipping a part of the gap does not
  change what comes next;
* `Caret.Checked.Scanner.next?_ofLexer` — **the loop ends, no slice fails, and it finds the next
  lexeme**;
* `Caret.Checked.Scanner.collect?_ofLexer` — so does the loop over all lexemes in front of the cursor.
-/

import Caret.Proofs.Checked.Lexeme
import Caret.Proofs.Checked.Trivia

set_option relaxedAutoImplicit false
set_option autoImplicit false

namespace Caret

namespace Lexer

/-! ### What comes next behind a part of the gap -/

variable {l : Lexer}

/-- What comes next is the same behind a part of the gap, if the line ends there or not as before. -/
theorem next_over {c : Cut} (hcut : Trivia.cut l.rest = (Trivia.cut c.rest).keep c.taken)
    (hends : (l.pending && endsLine (Trivia.cut c.rest))
      = (l.pending && endsLine (Trivia.cut l.rest)))
    (hline : (l.pending && endsLine (Trivia.cut l.rest)) = true → (l.past c).lineEnd = l.lineEnd) :
    (l.past c).next = l.next := by
  unfold next
  simp only [rest_past, pending_past, position_past, hends]
  split
  · next h => rw [hline h]
  · rw [hcut, Cut.rest_keep, Cut.taken_keep, Position.after_append]
    rfl

theorem lineEnd_over_blanks {blanks rest : List Char} (hr : l.rest = blanks ++ rest)
    (hb : ∀ c ∈ blanks, isBlank c = true) : (l.past ⟨blanks, rest⟩).lineEnd = l.lineEnd := by
  have hrun : Cut.run isBlank l.rest = (Cut.run isBlank rest).keep blanks := by
    rw [hr, Cut.run, List.takeWhile_append_of_pos hb, List.dropWhile_append_of_pos hb]
    rfl
  simp only [lineEnd, rest_past, position_past, hrun, Cut.taken_keep, Cut.rest_keep,
    Position.after_append]

/-- Skipping blanks does not change what comes next. -/
theorem next_over_blanks {blanks rest : List Char} (hr : l.rest = blanks ++ rest)
    (hb : ∀ c ∈ blanks, isBlank c = true) : (l.past ⟨blanks, rest⟩).next = l.next := by
  have hcut : Trivia.cut l.rest = (Trivia.cut rest).keep blanks := by rw [hr, cut_blanks rest hb]
  refine next_over hcut ?_ fun _ => lineEnd_over_blanks hr hb
  rw [hcut, endsLine_keep_blanks hb]

/-- Skipping a part of the gap does not change what comes next, unless the line ends in the gap. -/
theorem next_over_gap {c : Cut} (hcut : Trivia.cut l.rest = (Trivia.cut c.rest).keep c.taken)
    (hend : (l.pending && endsLine (Trivia.cut l.rest)) = false) : (l.past c).next = l.next := by
  refine next_over hcut ?_ fun h => absurd (hend.symm.trans h) Bool.false_ne_true
  rw [hend]
  rw [hcut, Checked.endsLine_keep] at hend
  cases hp : l.pending with
  | false => rfl
  | true =>
      rw [hp, Bool.true_and, Bool.or_eq_false_iff] at hend
      exact hend.2

/-! ### The mark of the end of a line -/

theorem lineEnd_of_newline {cs : List Char} (hr : l.rest = '\n' :: cs) :
    l.lineEnd = (⟨.lineEnd, l.position, l.position.advance '\n'⟩,
      ⟨cs, l.position.advance '\n', false⟩) := by
  have hrun : Cut.run isBlank l.rest = .nothing ('\n' :: cs) := by
    rw [hr, Cut.run_cons_of_neg cs isBlank_newline]
  simp only [lineEnd, hrun, Cut.taken_nothing, Cut.rest_nothing, Position.after_nil]

/-- Where neither a blank nor a newline stands, the mark has no extent. -/
theorem lineEnd_of_stop (hr : ∀ c ∈ l.rest.head?, isSpace c = false) :
    l.lineEnd = (⟨.lineEnd, l.position, l.position⟩, ⟨l.rest, l.position, false⟩) := by
  cases hcs : l.rest with
  | nil => simp [lineEnd, hcs, Cut.run]
  | cons c cs =>
      have hc : isBlank c = false ∧ c ≠ '\n' := by
        simpa [isSpace] using hr c (by rw [hcs]; rfl)
      have hrun : Cut.run isBlank l.rest = .nothing (c :: cs) := by
        rw [hcs, Cut.run_cons_of_neg cs hc.1]
      simp only [lineEnd, hrun, Cut.taken_nothing, Cut.rest_nothing, Position.after_nil]
      split
      · next heq => exact absurd (List.cons.inj heq).1 hc.2
      · rfl

end Lexer

namespace Checked

open Lexer (InText endsLine)

namespace Scanner

/-! ### The loop -/

/-- The mark of the end of a line that starts at `start`. -/
def mark (start : Position) (s : Scanner) : Option Lexeme × Scanner :=
  (some ⟨.lineEnd, start, s.position⟩, { s with pending := false })

/-- Does the line end at the comments that open here, where its end would end a statement? -/
def endsLine? (s : Scanner) : Option Bool := do
  if s.pending then commentsEndLine? (← s.ahead?) else return false

/-- Reads the lexeme whose first character is `c`. -/
def lexeme? (c : Char) (s : Scanner) : Option (Option Lexeme × Scanner) := do
  let (kind, behind) ← s.scan? c
  let pending := if kind = .illegal then behind.pending else kind.endsStatement
  let literal ← slice? s.position.offset behind.position.offset behind.text
  return (some ⟨⟨kind, .ofList literal⟩, s.position, behind.position⟩, { behind with pending })

/-- The next lexeme, and the scanner behind it.  There is none at the end of the text. -/
def next? (s : Scanner) : Option (Option Lexeme × Scanner) := do
  let s ← s.skipWhitespace?
  match ← s.peek? with
  | none => if s.pending then return mark s.position s else return (none, s)
  | some c =>
    if c = '\n' then return mark s.position (← s.advance?)
    else if ← s.opensComment? c then
      if ← s.endsLine? then return mark s.position s else (← s.skipComment?) |>.next?
    else s.lexeme? c
partial_fixpoint

/-! ### What the loop finds -/

variable {text : List Char} {l : Lexer} {c : Char} {cs : List Char}

theorem gap_of_spaces {cs : List Char} (h : ∀ c ∈ cs, isSpace c = true) : Gap False cs := by
  induction cs with
  | nil => exact Gap.nil
  | cons c cs ih =>
      exact Gap.space (h c List.mem_cons_self) (ih fun d hd => h d (List.mem_cons_of_mem c hd))

/-- Blanks are skipped, and newlines too unless one ends a statement; what comes next stays. -/
theorem exists_skipWhitespace? (h : InText text l) : ∃ m : Lexer, InText text m ∧
    m.rest.length ≤ l.rest.length ∧
    (ofLexer text l).skipWhitespace? = some (.ofLexer text m) ∧ m.next = l.next ∧
    ∀ d ∈ m.rest.head?, isBlank d = false ∧ (d = '\n' → m.pending = true) := by
  obtain ⟨p, hp⟩ : ∃ p : Char → Bool, p = fun c => isBlank c || (c == '\n' && !l.pending) := ⟨_, rfl⟩
  have hwhole : (Cut.run p l.rest).whole = l.rest := Cut.whole_run p l.rest
  have hmem := Cut.forall_mem_run p l.rest
  refine ⟨l.past (.run p l.rest), h.past hwhole, (List.dropWhile_sublist p).length_le,
    by rw [skipWhitespace?_ofLexer h, hp], ?_, fun d hd => ?_⟩
  · cases hpending : l.pending with
    | true =>
        exact Lexer.next_over_blanks hwhole.symm fun c hc => by simpa [hp, hpending] using hmem c hc
    | false =>
        have hgap := gap_of_spaces fun c hc => by simpa [hp, hpending, isSpace] using hmem c hc
        refine Lexer.next_over_gap ?_ (by rw [hpending, Bool.false_and])
        conv_lhs => rw [← hwhole]
        exact Trivia.cut_gap_append _ hgap
  · have hd' := Cut.head_rest_run p l.rest d hd
    simp only [hp, Bool.or_eq_false_iff, Bool.and_eq_false_iff, beq_eq_false_iff_ne,
      Bool.not_eq_false'] at hd'
    exact ⟨hd'.1, fun hn => hd'.2.resolve_left fun hne => hne hn⟩

/-- A comment that does not end the line is skipped, and what comes next stays. -/
theorem exists_skipComment? (h : InText text l) (ho : Trivia.Opens l.rest)
    (hends : (l.pending && endsLine (Trivia.cut l.rest)) = false) : ∃ m : Lexer, InText text m ∧
    m.rest.length < l.rest.length ∧
    (ofLexer text l).skipComment? = some (.ofLexer text m) ∧ m.next = l.next := by
  obtain ⟨k, rest, heq, hk⟩ := Trivia.exists_comment ho
  have hcut : Trivia.cut l.rest = (Trivia.cut rest).keep k.text := by
    rw [heq, Trivia.cut_comment hk]
  refine ⟨l.past ⟨k.text, rest⟩, h.past heq.symm, ?_, skipComment?_ofLexer h heq hk,
    Lexer.next_over_gap hcut hends⟩
  have htwo := k.two_le_length_text
  have hsum := congrArg List.length heq
  rw [List.length_append] at hsum
  change rest.length < l.rest.length
  omega

/-- The end of a line is marked where the lexer marks it. -/
theorem mark_eq (hp : l.pending = true) (he : endsLine (Trivia.cut l.rest) = true)
    (hs : ∀ c ∈ l.rest.head?, isSpace c = false) :
    mark l.position (ofLexer text l) = (l.next.1, .ofLexer text l.next.2) := by
  rw [Lexer.next_of_endsLine hp he, Lexer.lineEnd_of_stop hs]
  rfl

theorem mark_eq_of_newline (hp : l.pending = true) (hr : l.rest = '\n' :: cs) :
    mark l.position (ofLexer text (l.past ⟨['\n'], cs⟩)) = (l.next.1, .ofLexer text l.next.2) := by
  have he : endsLine (Trivia.cut l.rest) = true := by rw [hr, Lexer.endsLine_newline]
  rw [Lexer.next_of_endsLine hp he, Lexer.lineEnd_of_newline hr]
  rfl

theorem next_of_nil (hp : l.pending = false) (hr : l.rest = []) : l.next = (none, l) := by
  obtain ⟨rest, position, pending⟩ := l
  obtain rfl : rest = [] := hr
  obtain rfl : pending = false := hp
  simp [Lexer.next, Trivia.cut_nil]

theorem endsLine?_ofLexer (h : InText text l) (hr : l.rest = c :: cs) (hc : isSpace c = false) :
    (ofLexer text l).endsLine? = some (l.pending && endsLine (Trivia.cut l.rest)) := by
  rw [endsLine?, ahead?_ofLexer h, hr]
  cases hp : l.pending with
  | true => simp [ofLexer, hp, commentsEndLine?_eq hc]
  | false => simp [ofLexer, hp]

/-- Where nothing is left to skip, the next lexeme is read. -/
theorem lexeme?_ofLexer (h : InText text l) (hr : l.rest = c :: cs)
    (hstop : Trivia.cut l.rest = .nothing l.rest) :
    (ofLexer text l).lexeme? c = some (l.next.1, .ofLexer text l.next.2) := by
  have hends : (l.pending && endsLine (Trivia.cut l.rest)) = false := by
    rw [hstop, endsLine]
    simp [hr]
  have hnext := Lexer.next_of_rest hends (by rw [hstop, Cut.rest_nothing, hr]; simp) rfl
  have hslice := slice?_past h (Lexeme.whole_scan l.rest)
  rw [hstop] at hnext
  rw [lexeme?, scan?_ofLexer h hr, hnext]
  simp only [Option.bind_eq_bind, Option.bind_some]
  change (slice? l.position.offset (l.past (Lexeme.scan l.rest).2).position.offset text).bind _ = _
  rw [hslice]
  rfl

/-- The loop ends, no slice fails, and it finds the next lexeme. -/
theorem next?_ofLexer (h : InText text l) :
    (ofLexer text l).next? = some (l.next.1, .ofLexer text l.next.2) := by
  -- on the length of what is left, because comments are skipped in one piece
  induction hn : l.rest.length using Nat.strongRecOn generalizing l with
  | ind n ih =>
      obtain ⟨m, hin, hlength, hskip, hnext, hhead⟩ := exists_skipWhitespace? h
      rw [next?, hskip, ← hnext]
      simp only [Option.bind_eq_bind, Option.bind_some, peek?_ofLexer hin]
      cases hr : m.rest with
      | nil =>
          simp only [List.head?_nil]
          by_cases hp : (ofLexer text m).pending = true
          · rw [if_pos hp]
            exact congrArg some (mark_eq hp (by simp [hr, endsLine]) (by simp [hr]))
          · rw [if_neg hp, next_of_nil (Bool.eq_false_of_not_eq_true hp) hr]
            rfl
      | cons c cs =>
          rw [hr] at hhead
          obtain ⟨hblank, hnewline⟩ := hhead c rfl
          rw [List.head?_cons]
          simp only
          by_cases hc : c = '\n'
          · subst hc
            rw [if_pos rfl, advance?_ofLexer hin hr]
            exact congrArg some (mark_eq_of_newline (hnewline rfl) hr)
          · have hspace : isSpace c = false := by simp [isSpace, hblank, hc]
            obtain ⟨opens, hopens, hiff⟩ := opensComment?_ofLexer hin hr
            rw [if_neg hc, hopens, Option.bind_some]
            cases opens with
            | false =>
                rcases Trivia.space_or_opens_or_stop c cs with hs | ho | hstop
                · exact absurd hs (by simp [hspace])
                · exact absurd (hiff.2 (hr ▸ ho)) Bool.false_ne_true
                · exact lexeme?_ofLexer hin hr (by rw [hr, hstop])
            | true =>
                rw [if_pos rfl, endsLine?_ofLexer hin hr hspace, Option.bind_some]
                cases hends : (m.pending && endsLine (Trivia.cut m.rest)) with
                | true =>
                    obtain ⟨hp, he⟩ := Bool.and_eq_true_iff.1 hends
                    exact congrArg some (mark_eq hp he (by simpa [hr] using hspace))
                | false =>
                    obtain ⟨k, hin', hshorter, hcomment, hnext'⟩ :=
                      exists_skipComment? hin (hiff.1 rfl) hends
                    rw [if_neg Bool.false_ne_true, hcomment, Option.bind_some,
                      ih k.rest.length (by omega) hin' rfl, hnext']

/-! ### The tokens in front of the cursor -/

/-- Appends the tokens that start before the cursor to those seen so far, and gives the offset where
the last of them starts. -/
def collect? (cursor : Nat) (seen : List Token) (last : Nat) (s : Scanner) :
    Option (List Token × Nat) := do
  match ← s.next? with
  | (none, _) => return (seen, last)
  | (some t, behind) =>
    if cursor ≤ t.start.offset then return (seen, last)
    else behind |>.collect? cursor (seen ++ [t.token]) t.start.offset
partial_fixpoint

/-- The loop over the lexemes ends with the last one that starts before the cursor. -/
theorem collect?_ofLexer (cursor : Nat) (seen : List Token) (last : Nat) (h : InText text l) :
    (ofLexer text l).collect? cursor seen last
      = some (seen ++ (l.lexemes.takeWhile fun t => decide (t.start.offset < cursor)).map (·.token),
        ((l.lexemes.takeWhile fun t => decide (t.start.offset < cursor)).getLast?.map
          (·.start.offset)).getD last) := by
  induction l using Lexer.step_induction generalizing seen last with
  | done l hdone =>
      rw [collect?, next?_ofLexer h, Lexer.next_of_done hdone, Lexer.lexemes_of_done hdone]
      simp
  | step l t m hstep ih =>
      rw [collect?, next?_ofLexer h, Lexer.next_of_step hstep, Lexer.lexemes_of_step hstep]
      simp only [Option.bind_eq_bind, Option.bind_some]
      by_cases ht : cursor ≤ t.start.offset
      · rw [if_pos ht, List.takeWhile_cons_of_neg (by simpa using ht)]
        simp
      · rw [if_neg ht, ih _ _ (h.of_step hstep), List.takeWhile_cons_of_pos (by simpa using ht)]
        simp [List.getLast?_cons]

end Scanner

end Checked

end Caret
