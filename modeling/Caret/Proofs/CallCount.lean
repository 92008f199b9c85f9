/-
**How often a lexer finds something.**

Not every call of a lexer reads a character: the mark of the end of a line may have no extent, in front
of a comment and at the end of the text.  But no two lexemes start at the same byte, and none starts
behind the last one, so there is at most one lexeme more than there are bytes.  The mark takes back what
made it possible, and only a token that is read can make another one possible; so no two marks follow
each other.

Once there is nothing left to find, a call moves over what is left of the text, and every later call finds
the lexer there.

Main results:

* `Caret.Covers.length_le` — there is at most one lexeme more than there are bytes;
* `Caret.Lexer.Step.not_mark_behind`, `Caret.Lexer.isChain_lexemes` — no mark follows a mark;
* `Caret.Lexer.offset_afterCalls` — a call that finds nothing leaves the lexer at the end of the text;
* `Caret.calls_finish` — **every call comes to an end, and sooner or later they find nothing more**.
-/

import Mathlib.Data.List.Chain
import Mathlib.Data.List.Perm.Subperm
import Caret.Proofs.LineEnd
import Caret.Proofs.Recount

set_option relaxedAutoImplicit false
set_option autoImplicit false

namespace Caret

/-- There is at most one lexeme more than there are bytes: one for each of them, and one at the end. -/
theorem Covers.length_le {text : List Char} {start : Nat} {ts : List Lexeme}
    (h : Covers text start ts) : ts.length ≤ utf8Length text + 1 := by
  have hdistinct : (ts.map fun t => t.start.offset).Nodup :=
    List.pairwise_map.2 (h.pairwise.imp fun hlt => Nat.ne_of_lt hlt.2)
  have hbounded : (ts.map fun t => t.start.offset) ⊆ List.range (utf8Length text + 1) := by
    intro n hn
    obtain ⟨t, ht, rfl⟩ := List.mem_map.1 hn
    obtain ⟨-, hspan, hstop⟩ := h.ordered t ht
    exact List.mem_range.2 (Nat.lt_succ_of_le (hspan.trans hstop))
  simpa using (List.subperm_of_subset hdistinct hbounded).length_le

namespace Lexer

/-! ### Marks -/

/-- Behind a mark the next lexeme is none: the end of the line is no longer pending. -/
theorem Step.not_mark_behind {l m k : Lexer} {t u : Lexeme} (h : Step l t m) (hu : Step m u k)
    (ht : t.token = .lineEnd) : u.token ≠ .lineEnd := by
  intro hmark
  have hpending := hu.pending_of_mark hmark
  rw [h.pending_eq, ht, Token.pendingBehind, if_pos rfl] at hpending
  exact absurd hpending (by decide)

/-- No mark follows a mark. -/
theorem isChain_lexemes (l : Lexer) :
    l.lexemes.IsChain fun t u => t.token = .lineEnd → u.token ≠ .lineEnd := by
  induction l using step_induction with
  | done l hdone =>
      rw [lexemes_of_done hdone]
      exact List.isChain_nil
  | step l t m h ih =>
      rw [lexemes_of_step h]
      rcases m.done_or_step with hdone | ⟨u, k, hu⟩
      · rw [lexemes_of_done hdone]
        exact List.isChain_singleton t
      · rw [lexemes_of_step hu] at ih ⊢
        exact List.isChain_cons_cons.2 ⟨h.not_mark_behind hu, ih⟩

/-! ### The end of the text -/

/-- A call that finds nothing leaves the lexer at the end of the text. -/
theorem offset_afterCalls {text : List Char} {l : Lexer} (hl : Walked text l) {n : Nat}
    (hn : l.lexemes.length ≤ n) : (l.afterCalls (n + 1)).position.offset = utf8Length text := by
  have hdone : (l.afterCalls n).Done := by
    rw [← next_fst_eq_none_iff, next_afterCalls]
    exact List.getElem?_eq_none hn
  have hend := ((hl.afterCalls n).next).inText.utf8Length_eq
  rw [next_of_done hdone, utf8Length_nil, Nat.add_zero] at hend
  rw [afterCalls_succ, next_of_done hdone, hend]

end Lexer

/-- **Every call comes to an end, and sooner or later they find nothing more.**  A scanner that is
called again and again never fails to answer.  Its calls find the lexemes of the text one after the
other, at most one more than the text has bytes; each call behind these finds none and leaves the
scanner at the end of the text.  Between two marks of the end of a line there is a token that was
read. -/
theorem calls_finish (source : String) :
    let text := source.toList
    let ts := Lexeme.ofText text
    ts.length ≤ utf8Length text + 1 ∧
      (∀ n, ∃ s behind, (Checked.Scanner.ofText text).afterCalls? n = some s ∧
        s.next? = some (ts[n]?, behind) ∧
        (Checked.Scanner.ofText text).afterCalls? (n + 1) = some behind ∧
        (ts.length ≤ n → behind.position.offset = utf8Length text)) ∧
      ts.IsChain fun t u => t.token = .lineEnd → u.token ≠ .lineEnd := by
  intro text ts
  have hl := Lexer.walked_ofText text
  refine ⟨(Lexer.covers_lexemes _ hl.inText).length_le, fun n => ?_, Lexer.isChain_lexemes _⟩
  obtain ⟨s, hs, hnext⟩ := Checked.Scanner.next?_afterCalls? text n
  refine ⟨s, _, hs, hnext, ?_, fun hn => Lexer.offset_afterCalls hl hn⟩
  rw [Checked.Scanner.ofText_eq]
  exact Checked.Scanner.afterCalls?_ofLexer hl (n + 1)

-- one lexeme more than there are bytes: a letter, and the end of the line behind it
example : (Lexeme.ofText ['a']).length = utf8Length ['a'] + 1 := by cbv

end Caret
