/-
**The place of the lexer, counted anew.**

The lexer carries its line and column along and changes them with every character it moves over.
Counting from the beginning of the text instead gives the same place wherever the lexer stands
between two lexemes, and wherever a lexeme starts or stops.  A byte order mark takes bytes and no
column, so line and column are those of the text behind it.

Main definitions:

* `Caret.unmarked` — a text without its byte order mark;
* `Caret.Position.shift` — a place in a text with more text in front of it;
* `Caret.Lexer.afterCalls`, `Caret.Checked.Scanner.afterCalls?` — a lexer, or a scanner, that has
  been asked for a number of lexemes;
* `Caret.Lexer.Walked` — the lexer has walked to where it stands from the beginning of its text;
* `Caret.Recounted` — the line and column of a place are those of its offset.

Main results:

* `Caret.Position.shift_after` — what stands in front of a text moves every place in it alike;
* `Caret.Lexer.Walked.next` — a lexer that is asked for a lexeme walks on;
* `Caret.Checked.Scanner.next?_afterCalls?` — every call of a scanner finds its lexeme;
* `Caret.position_recounted` — **counting anew gives the place of the lexer and of its lexemes**.
-/

import Mathlib.Logic.Function.Iterate
import Caret.Proofs.Checked.Lexer
import Caret.Proofs.Place

set_option relaxedAutoImplicit false
set_option autoImplicit false

namespace Caret

/-! ### The text behind the byte order mark -/

/-- A text without its byte order mark. -/
def unmarked (text : List Char) : List Char := text.drop (byteOrderMark text).length

theorem byteOrderMark_append_unmarked (text : List Char) :
    byteOrderMark text ++ unmarked text = text :=
  List.prefix_iff_eq_append.1 <| byteOrderMark_prefix text

theorem unmarked_of_nil {text : List Char} (h : byteOrderMark text = []) : unmarked text = text := by
  rw [unmarked, h, List.length_nil, List.drop_zero]

/-- A lexer starts behind the byte order mark. -/
theorem rest_ofText (text : List Char) : (Lexer.ofText text).rest = unmarked text := by
  cases text with
  | nil => rfl
  | cons c cs =>
      rw [Lexer.ofText, unmarked, byteOrderMark]
      split <;> rfl

/-! ### Places in a text that stands behind another -/

namespace Position

/-- A place that has so many more lines and bytes in front of it. -/
def shift (lines bytes : Nat) (p : Position) : Position := ⟨p.line + lines, p.column, p.offset + bytes⟩

@[simp] theorem line_shift (lines bytes : Nat) (p : Position) :
    (p.shift lines bytes).line = p.line + lines := rfl

@[simp] theorem column_shift (lines bytes : Nat) (p : Position) :
    (p.shift lines bytes).column = p.column := rfl

@[simp] theorem offset_shift (lines bytes : Nat) (p : Position) :
    (p.shift lines bytes).offset = p.offset + bytes := rfl

theorem shift_advance (lines bytes : Nat) (p : Position) (c : Char) :
    (p.shift lines bytes).advance c = (p.advance c).shift lines bytes := by
  rw [advance, advance]
  split <;> simp [shift] <;> omega

/-- What stands in front of a text moves every place in it alike. -/
theorem shift_after (lines bytes : Nat) (p : Position) (cs : List Char) :
    (p.shift lines bytes).after cs = (p.after cs).shift lines bytes := by
  induction cs generalizing p with
  | nil => rfl
  | cons c cs ih => rw [after_cons, after_cons, shift_advance, ih]

/-- The place of a boundary is where walking to it leads. -/
theorem ofOffset_of_isPrefix {front text : List Char} (h : front <+: text) :
    ofOffset text (utf8Length front) = start.after front := by
  have hoffset : (start.after front).offset = utf8Length front := by
    rw [offset_after]
    exact Nat.zero_add _
  have hle : utf8Length front ≤ utf8Length text := IsBoundary.le ⟨front, h, rfl⟩
  rw [ofOffset, coverBytes_of_isPrefix h, min_eq_left hle, ← hoffset]

end Position

theorem position_ofText (text : List Char) :
    (Lexer.ofText text).position = Position.start.shift 0 (utf8Length (byteOrderMark text)) := by
  cases text with
  | nil => rfl
  | cons c cs =>
      rw [Lexer.ofText, byteOrderMark]
      split
      · next hc => rw [hc]; rfl
      · rfl

/-! ### Asking for lexemes -/

namespace Lexer

/-- The lexer after `n` calls of `next`, whether or not they found a lexeme. -/
def afterCalls (n : Nat) (l : Lexer) : Lexer := (fun m : Lexer => m.next.2)^[n] l

theorem afterCalls_succ (n : Nat) (l : Lexer) : l.afterCalls (n + 1) = (l.afterCalls n).next.2 :=
  Function.iterate_succ_apply' _ n l

/-- A call finds the first of the lexemes that are left. -/
theorem next_fst_eq (l : Lexer) : l.next.1 = l.lexemes.head? := by
  rcases l.done_or_step with hdone | ⟨t, m, hstep⟩
  · rw [lexemes_of_done hdone, next_of_done hdone, List.head?_nil]
  · rw [lexemes_of_step hstep, next_of_step hstep, List.head?_cons]

/-- A call leaves the others. -/
theorem lexemes_next (l : Lexer) : l.next.2.lexemes = l.lexemes.tail := by
  rcases l.done_or_step with hdone | ⟨t, m, hstep⟩
  · rw [lexemes_of_done hdone, next_of_done hdone]
    exact lexemes_of_done (done_nil _)
  · rw [lexemes_of_step hstep, next_of_step hstep, List.tail_cons]

theorem lexemes_afterCalls (n : Nat) (l : Lexer) : (l.afterCalls n).lexemes = l.lexemes.drop n := by
  induction n with
  | zero => rfl
  | succ n ih => rw [afterCalls_succ, lexemes_next, ih, List.tail_drop]

/-- The calls find the lexemes in order. -/
theorem next_afterCalls (n : Nat) (l : Lexer) : (l.afterCalls n).next.1 = l.lexemes[n]? := by
  rw [next_fst_eq, lexemes_afterCalls, List.head?_drop]

/-! ### Walking from the beginning of the text -/

/-- The lexer has walked to where it stands from the beginning of its text. -/
def Walked (text : List Char) (l : Lexer) : Prop :=
  ∃ front, unmarked text = front ++ l.rest ∧ l.position = (ofText text).position.after front

theorem walked_ofText (text : List Char) : Walked text (ofText text) :=
  ⟨[], (rest_ofText text).symm, rfl⟩

/-- A lexer that has walked from the beginning stands inside of its text. -/
theorem Walked.inText {text : List Char} {l : Lexer} (h : Walked text l) : InText text l := by
  obtain ⟨front, hrest, hpos⟩ := h
  refine ⟨byteOrderMark text ++ front, ?_, ?_⟩
  · rw [List.append_assoc, ← hrest, byteOrderMark_append_unmarked]
  · rw [hpos, Position.offset_after, offset_ofText, utf8Length_append]

/-- A lexer walks on over a part of its text. -/
theorem Walked.append {text : List Char} {l m : Lexer} {part : List Char} (h : Walked text l)
    (hrest : l.rest = part ++ m.rest) (hpos : m.position = l.position.after part) :
    Walked text m := by
  obtain ⟨front, hfront, hplace⟩ := h
  refine ⟨front ++ part, ?_, ?_⟩
  · rw [hfront, hrest, List.append_assoc]
  · rw [hpos, hplace, Position.after_append]

/-- A lexer that is asked for a lexeme walks on. -/
theorem Walked.next {text : List Char} {l : Lexer} (h : Walked text l) : Walked text l.next.2 := by
  rcases l.done_or_step with hdone | ⟨t, m, hstep⟩
  · rw [next_of_done hdone]
    exact h.append (List.append_nil _).symm rfl
  · obtain ⟨gap, span, hrest, -, hstart, hstop, hpos, -⟩ := hstep.parts
    rw [next_of_step hstep]
    refine @Walked.append text l m (gap ++ span) h ?_ ?_
    · rw [hrest, List.append_assoc]
    · rw [hpos, hstop, hstart, Position.after_append]

theorem Walked.afterCalls {text : List Char} {l : Lexer} (h : Walked text l) (n : Nat) :
    Walked text (l.afterCalls n) := by
  induction n with
  | zero => exact h
  | succ n ih =>
      rw [afterCalls_succ]
      exact ih.next

end Lexer

/-! ### Counting anew -/

/-- Line and column of the place `p` are those of its offset, counted anew in the text behind the
byte order mark. -/
structure Recounted (text : List Char) (p : Position) : Prop where
  /-- The place lies between two characters. -/
  boundary : IsBoundary text p.offset
  /-- It does not lie in front of the byte order mark. -/
  mark_le : utf8Length (byteOrderMark text) ≤ p.offset
  /-- Its line is that of its offset in the text behind the mark. -/
  line_eq : p.line
    = (Position.ofOffset (unmarked text) (p.offset - utf8Length (byteOrderMark text))).line
  /-- So is its column. -/
  column_eq : p.column
    = (Position.ofOffset (unmarked text) (p.offset - utf8Length (byteOrderMark text))).column
  /-- Without a mark, it is the place of its offset in the text. -/
  eq_ofOffset : byteOrderMark text = [] → p = Position.ofOffset text p.offset

/-- Wherever walking from the beginning of a text leads, counting anew leads as well. -/
theorem recounted_after {text front : List Char} (h : front <+: unmarked text) :
    Recounted text ((Lexer.ofText text).position.after front) := by
  obtain ⟨back, hback⟩ := h
  have hplace : Position.ofOffset (unmarked text) (utf8Length front) = Position.start.after front :=
    Position.ofOffset_of_isPrefix ⟨back, hback⟩
  have hshift : (Lexer.ofText text).position.after front
      = (Position.start.after front).shift 0 (utf8Length (byteOrderMark text)) := by
    rw [position_ofText, Position.shift_after]
  have hoffset : ((Lexer.ofText text).position.after front).offset
      = utf8Length (byteOrderMark text) + utf8Length front := by
    rw [Position.offset_after, offset_ofText]
  refine ⟨?_, ?_, ?_, ?_, fun hmark => ?_⟩
  · refine ⟨byteOrderMark text ++ front, ⟨back, ?_⟩, ?_⟩
    · rw [List.append_assoc, hback, byteOrderMark_append_unmarked]
    · rw [hoffset, utf8Length_append]
  · rw [hoffset]
    exact Nat.le_add_right _ _
  · rw [hoffset, Nat.add_sub_cancel_left, hplace, hshift, Position.line_shift, Nat.add_zero]
  · rw [hoffset, Nat.add_sub_cancel_left, hplace, hshift, Position.column_shift]
  · rw [hoffset, hshift, hmark, utf8Length_nil, Nat.zero_add]
    rw [unmarked_of_nil hmark] at hplace
    exact hplace.symm

/-- A line and a column are at most one more than there are characters. -/
theorem Recounted.le {text : List Char} {p : Position} (h : Recounted text p) :
    p.line ≤ text.length + 1 ∧ p.column ≤ text.length + 1 := by
  have hlength : (unmarked text).length ≤ text.length := by
    rw [unmarked, List.length_drop]
    exact Nat.sub_le _ _
  obtain ⟨hline, hcolumn⟩ :=
    ofOffset_le (unmarked text) (p.offset - utf8Length (byteOrderMark text))
  rw [h.line_eq, h.column_eq]
  omega

/-- A lexer that has walked from the beginning stands where counting anew leads. -/
theorem Lexer.Walked.recounted {text : List Char} {l : Lexer} (h : Walked text l) :
    Recounted text l.position := by
  obtain ⟨front, hfront, hpos⟩ := h
  rw [hpos]
  exact recounted_after ⟨l.rest, hfront.symm⟩

/-- So do the ends of the lexeme that it finds, and it stops behind this lexeme. -/
theorem Lexer.Walked.recounted_next {text : List Char} {l : Lexer} (h : Walked text l) {t : Lexeme}
    (ht : t ∈ l.next.1) :
    Recounted text t.start ∧ Recounted text t.stop ∧ l.next.2.position = t.stop := by
  obtain ⟨m, hnext⟩ : ∃ m, l.next = (some t, m) := ⟨l.next.2, by rw [← Option.mem_def.1 ht]⟩
  obtain ⟨gap, span, hrest, -, hstart, -, hpos, -⟩ := (step_of_next hnext).parts
  have hgap : Walked text ⟨span ++ m.rest, l.position.after gap, l.pending⟩ := h.append hrest rfl
  have hbehind : Walked text m := by
    have := h.next
    rwa [hnext] at this
  rw [hnext]
  refine ⟨?_, ?_, hpos⟩
  · rw [hstart]
    exact hgap.recounted
  · rw [← hpos]
    exact hbehind.recounted

/-! ### One character at a time -/

/-- The scanner after `n` calls of `next?`. -/
def Checked.Scanner.afterCalls? : Nat → Scanner → Option Scanner
  | 0, s => some s
  | n + 1, s => do
    let (_, behind) ← s.next?
    behind.afterCalls? n

/-- The scanner, which moves over one character at a time, stands where the lexer does. -/
theorem Checked.Scanner.afterCalls?_ofLexer {text : List Char} {l : Lexer}
    (h : Lexer.Walked text l) (n : Nat) :
    (ofLexer text l).afterCalls? n = some (.ofLexer text (l.afterCalls n)) := by
  induction n generalizing l with
  | zero => rfl
  | succ n ih =>
      rw [afterCalls?, next?_ofLexer h.inText]
      exact ih h.next

/-- Every call of a scanner at the beginning of a text comes to an end.  It finds the lexeme of its
number, if there is one, and leaves the scanner where as many calls leave the lexer. -/
theorem Checked.Scanner.next?_afterCalls? (text : List Char) (n : Nat) :
    ∃ s, (ofText text).afterCalls? n = some s ∧
      s.next? = some ((Lexeme.ofText text)[n]?, .ofLexer text ((Lexer.ofText text).afterCalls (n + 1))) := by
  have hl := (Lexer.walked_ofText text).afterCalls n
  refine ⟨.ofLexer text ((Lexer.ofText text).afterCalls n), ?_, ?_⟩
  · rw [ofText_eq]
    exact afterCalls?_ofLexer (Lexer.walked_ofText text) n
  · rw [next?_ofLexer hl.inText, Lexer.next_afterCalls, ← Lexer.afterCalls_succ]
    rfl

/-- **Counting anew gives the place of the lexer and of its lexemes.**

After any number of calls, with or without a lexeme left to find, the line and column of the place
reached are those of its offset in the text behind the byte order mark, and the same is true of the
place where the lexeme of the next call starts and of the place where it stops, which is the place
reached then.  The lexemes of the calls are those of the text, and a scanner that counts as it moves
over one character after the other stands at the same place.  Wherever it comes on the way, line and
column are at most one more than there are characters, so that counters that hold as much do not run
over. -/
theorem position_recounted (source : String) (n : Nat) :
    let text := source.toList
    let l := (Lexer.ofText text).afterCalls n
    Recounted text l.position ∧
      (∀ t ∈ l.next.1, Recounted text t.start ∧ Recounted text t.stop ∧
        ((Lexer.ofText text).afterCalls (n + 1)).position = t.stop) ∧
      l.next.1 = (Lexeme.ofText text)[n]? ∧
      (Checked.Scanner.ofText text).afterCalls? n = some (.ofLexer text l) ∧
      ∀ front, front <+: unmarked text →
        ((Lexer.ofText text).position.after front).line ≤ text.length + 1 ∧
          ((Lexer.ofText text).position.after front).column ≤ text.length + 1 := by
  intro text l
  have hl : Lexer.Walked text l := (Lexer.walked_ofText text).afterCalls n
  refine ⟨hl.recounted, fun t ht => ?_, Lexer.next_afterCalls n _, ?_,
    fun front hfront => (recounted_after hfront).le⟩
  · rw [Lexer.afterCalls_succ]
    exact hl.recounted_next ht
  · rw [Checked.Scanner.ofText_eq]
    exact Checked.Scanner.afterCalls?_ofLexer (Lexer.walked_ofText text) n

end Caret
