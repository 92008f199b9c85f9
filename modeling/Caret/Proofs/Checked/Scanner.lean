/-
**A scanner on a text held in one piece.**

A scanner holds a whole text, the place it has reached, and whether the end of a line would end a
statement there.  It looks ahead by cutting the text at its offset and moves on by a character at a
time.  Wherever its offset is a boundary it does what the lexer does that holds the text behind this
boundary: looking ahead and moving on do not fail, and a loop that moves on while the next character
is of a class ends behind the longest run of such characters.

Main definitions:

* `Caret.Lexer.past` — a lexer that has moved over a part of its text;
* `Caret.Checked.Scanner`, `Caret.Checked.Scanner.ofLexer` — a scanner, and the one that stands where
  a lexer does;
* `Caret.Checked.Scanner.peek?`, `Caret.Checked.Scanner.peekNth?`, `Caret.Checked.Scanner.advance?`,
  `Caret.Checked.Scanner.advanceIf?` — looking ahead, and moving on;
* `Caret.Checked.Scanner.advanceWhile?` — moving on while characters are of a class.

Main results:

* `Caret.Lexer.InText.past` — a lexer that moves on stays in its text;
* `Caret.Checked.Scanner.ahead?_ofLexer`, `Caret.Checked.Scanner.advance?_ofLexer`,
  `Caret.Checked.Scanner.advanceWhile?_ofLexer` — none of it fails, and what it gives.
-/

import Caret.Proofs.Checked.Cutting
import Caret.Proofs.Lossless

set_option relaxedAutoImplicit false
set_option autoImplicit false

namespace Caret

/-! ### A lexer that moves on -/

theorem Cut.run_cons_of_pos {p : Char → Bool} {c : Char} (cs : List Char) (h : p c = true) :
    run p (c :: cs) = (run p cs).keep [c] := by
  simp [run, keep, h]

theorem Cut.run_cons_of_neg {p : Char → Bool} {c : Char} (cs : List Char) (h : p c = false) :
    run p (c :: cs) = .nothing (c :: cs) := by
  simp [run, nothing, h]

namespace Lexer

/-- The lexer that has moved over the part taken. -/
def past (l : Lexer) (c : Cut) : Lexer := ⟨c.rest, l.position.after c.taken, l.pending⟩

@[simp] theorem rest_past (l : Lexer) (c : Cut) : (l.past c).rest = c.rest := rfl

@[simp] theorem position_past (l : Lexer) (c : Cut) :
    (l.past c).position = l.position.after c.taken := rfl

@[simp] theorem pending_past (l : Lexer) (c : Cut) : (l.past c).pending = l.pending := rfl

@[simp] theorem past_nothing (l : Lexer) : l.past (.nothing l.rest) = l := rfl

@[simp] theorem past_past (l : Lexer) (c d : Cut) : (l.past c).past d = l.past (d.keep c.taken) := by
  simp [past, Position.after_append]

/-- A lexer that moves on stays in its text. -/
theorem InText.past {text : List Char} {l : Lexer} (h : InText text l) {c : Cut}
    (hc : c.whole = l.rest) : InText text (l.past c) := by
  obtain ⟨front, htext, hoff⟩ := h
  refine ⟨front ++ c.taken, ?_, ?_⟩
  · rw [htext, ← hc, Cut.whole, List.append_assoc, rest_past]
  · rw [position_past, Position.offset_after, hoff, utf8Length_append]

theorem InText.past_cons {text : List Char} {l : Lexer} (h : InText text l) {c : Char}
    {cs : List Char} (hr : l.rest = c :: cs) : InText text (l.past ⟨[c], cs⟩) :=
  h.past hr.symm

end Lexer

namespace Checked

open Lexer (InText)

/-! ### Scanners -/

/-- A scanner in the middle of a text. -/
structure Scanner where
  /-- The whole text. -/
  text : List Char
  /-- The place reached. -/
  position : Position
  /-- Would the end of a line end a statement here? -/
  pending : Bool
  deriving DecidableEq, Repr

namespace Scanner

/-- The scanner at the beginning of a text, behind its byte order mark if it has one. -/
def ofText (text : List Char) : Scanner :=
  if text.head? = some '\uFEFF' then ⟨text, ⟨1, 1, ('\uFEFF').utf8Size⟩, false⟩
  else ⟨text, .start, false⟩

/-- What is left of the text. -/
def ahead? (s : Scanner) : Option (List Char) := do
  let cut ← cutAt? s.position.offset s.text
  return cut.rest

/-- Has the end of the text been reached? -/
def atEnd (s : Scanner) : Bool := utf8Length s.text ≤ s.position.offset

/-- The next character, unless the text has ended. -/
def peek? (s : Scanner) : Option (Option Char) := do
  let rest ← s.ahead?
  return rest.head?

/-- The character `n` places behind the next one. -/
def peekNth? (n : Nat) (s : Scanner) : Option (Option Char) := do
  let rest ← s.ahead?
  return rest[n]?

/-- Moves over the next character. -/
def advance? (s : Scanner) : Option Scanner := do
  match ← s.peek? with
  | some c => return { s with position := s.position.advance c }
  | none => return s

/-- Moves over the next character if it is the expected one, and says whether it is. -/
def advanceIf? (expected : Char) (s : Scanner) : Option (Bool × Scanner) := do
  if (← s.peek?) = some expected then return (true, ← s.advance?)
  else return (false, s)

/-- Moves on while the next character is of the class `p`. -/
def advanceWhile? (p : Char → Bool) (s : Scanner) : Option Scanner := do
  match ← s.peek? with
  | some c => if p c then (← s.advance?) |>.advanceWhile? p else return s
  | none => return s
partial_fixpoint

/-! ### Where a lexer stands -/

/-- The scanner that stands where a lexer does. -/
def ofLexer (text : List Char) (l : Lexer) : Scanner := ⟨text, l.position, l.pending⟩

theorem ofText_eq (text : List Char) : ofText text = .ofLexer text (.ofText text) := by
  cases text with
  | nil => rfl
  | cons c cs =>
      rw [ofText, Lexer.ofText, List.head?_cons]
      by_cases hc : c = '\uFEFF'
      · rw [if_pos hc, if_pos (congrArg some hc), hc]
        rfl
      · rw [if_neg hc, if_neg (fun h => hc (Option.some.inj h))]
        rfl

section

variable {text : List Char} {l : Lexer} {c : Char} {cs : List Char}

/-- What is left of the text is what the lexer holds. -/
theorem ahead?_ofLexer (h : InText text l) : (Scanner.ofLexer text l).ahead? = some l.rest := by
  obtain ⟨front, htext, hoff⟩ := h
  rw [ahead?, Scanner.ofLexer, hoff, htext, cutAt?_append]
  rfl

/-- The text has ended if the lexer holds nothing. -/
theorem atEnd_ofLexer (h : InText text l) : (Scanner.ofLexer text l).atEnd = l.rest.isEmpty := by
  have hlength := h.utf8Length_eq
  rw [Bool.eq_iff_iff, atEnd, decide_eq_true_iff, List.isEmpty_iff, ← utf8Length_eq_zero_iff]
  change utf8Length text ≤ l.position.offset ↔ _
  omega

theorem peek?_ofLexer (h : InText text l) : (Scanner.ofLexer text l).peek? = some l.rest.head? := by
  rw [peek?, ahead?_ofLexer h]
  rfl

theorem peekNth?_ofLexer (h : InText text l) (n : Nat) :
    (Scanner.ofLexer text l).peekNth? n = some l.rest[n]? := by
  rw [peekNth?, ahead?_ofLexer h]
  rfl

/-- A scanner moves over the character that the lexer holds first. -/
theorem advance?_ofLexer (h : InText text l) (hr : l.rest = c :: cs) :
    (Scanner.ofLexer text l).advance? = some (.ofLexer text (l.past ⟨[c], cs⟩)) := by
  rw [advance?, peek?_ofLexer h, hr]
  rfl

theorem advanceIf?_ofLexer (h : InText text l) (hr : l.rest = c :: cs) :
    (Scanner.ofLexer text l).advanceIf? c = some (true, .ofLexer text (l.past ⟨[c], cs⟩)) := by
  rw [advanceIf?, peek?_ofLexer h, hr, List.head?_cons]
  simp only [Option.bind_eq_bind, Option.bind_some, if_true, advance?_ofLexer h hr]
  rfl

theorem advanceIf?_ofLexer_ne (h : InText text l) (hr : l.rest.head? ≠ some c) :
    (Scanner.ofLexer text l).advanceIf? c = some (false, .ofLexer text l) := by
  rw [advanceIf?, peek?_ofLexer h]
  simp only [Option.bind_eq_bind, Option.bind_some, if_neg hr]
  rfl

/-- Moving on while characters are of a class ends behind the longest run of them. -/
theorem advanceWhile?_ofLexer (p : Char → Bool) (h : InText text l) :
    (Scanner.ofLexer text l).advanceWhile? p = some (.ofLexer text (l.past (.run p l.rest))) := by
  induction hr : l.rest generalizing l with
  | nil =>
      rw [advanceWhile?, peek?_ofLexer h, hr]
      change some (Scanner.ofLexer text l) = some (.ofLexer text (l.past (.nothing [])))
      rw [← hr, Lexer.past_nothing]
  | cons c cs ih =>
      have hnext : InText text (l.past ⟨[c], cs⟩) := h.past_cons hr
      rw [advanceWhile?, peek?_ofLexer h, hr, List.head?_cons]
      simp only [Option.bind_eq_bind, Option.bind_some]
      cases hc : p c with
      | true =>
          rw [if_pos rfl, advance?_ofLexer h hr, Option.bind_some, ih hnext rfl, Lexer.past_past,
            Cut.run_cons_of_pos cs hc]
      | false =>
          rw [if_neg Bool.false_ne_true, Cut.run_cons_of_neg cs hc, ← hr, Lexer.past_nothing]
          rfl

end

end Scanner

end Checked

end Caret
