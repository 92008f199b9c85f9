/-
**The lexer.**

The lexer reads a text from left to right and produces its tokens with their places.  It never
fails: a character that starts no token makes an illegal token of its own.

A line that ends after a token that can end a statement ends the statement, which the lexer marks by
a semicolon.  It does so where the line ends or, if comments stand between the token and the end of
the line, in front of the first of them; the end of the text ends a line too.  Illegal tokens leave
the question open for the token before them.

A byte order mark at the very beginning of a text is skipped; it takes no column.

Main definitions:

* `Caret.Lexer` — the text still to be read, the place reached, and whether the end of a line would
  end a statement;
* `Caret.Lexer.next` — the next lexeme and the lexer after it;
* `Caret.Lexer.lexemes` — all lexemes that are left;
* `Caret.Lexer.ofText` — a lexer at the beginning of a text.

Main results:

* `Caret.Lexer.measure_next_lt` — every lexeme brings the lexer closer to the end.
-/

import Caret.Lexeme.Basic
import Caret.Trivia

set_option relaxedAutoImplicit false
set_option autoImplicit false

namespace Caret

/-- A lexer in the middle of its text. -/
structure Lexer where
  /-- The text still to be read. -/
  rest : List Char
  /-- The place reached. -/
  position : Position
  /-- Would the end of a line end a statement here? -/
  pending : Bool
  deriving DecidableEq, Repr

namespace Lexer

/-- A lexer at the beginning of a text, behind its byte order mark if it has one. -/
def ofText : List Char → Lexer
  | [] => ⟨[], .start, false⟩
  | c :: cs =>
    if c = '\uFEFF' then ⟨cs, ⟨1, 1, c.utf8Size⟩, false⟩ else ⟨c :: cs, .start, false⟩

/-! ### One lexeme -/

/-- The semicolon that stands for the end of the line: over the newline if only blanks precede it,
and of no extent in front of a comment or at the end of the text. -/
def lineEnd (l : Lexer) : Lexeme × Lexer :=
  let blanks := Cut.run isBlank l.rest
  let start := l.position.after blanks.taken
  match blanks.rest with
  | '\n' :: cs => (⟨.lineEnd, start, start.advance '\n'⟩, ⟨cs, start.advance '\n', false⟩)
  | cs => (⟨.lineEnd, start, start⟩, ⟨cs, start, false⟩)

/-- Is the gap at the front of the text, cut off here, one that ends the line? -/
def endsLine (gap : Cut) : Bool := gap.taken.contains '\n' || gap.rest.isEmpty

/-- The next lexeme, and the lexer after it.  At the end of the text there is none, and the lexer
has moved over what was left. -/
def next (l : Lexer) : Option Lexeme × Lexer :=
  let gap := Trivia.cut l.rest
  let start := l.position.after gap.taken
  if l.pending && endsLine gap then
    (some l.lineEnd.1, l.lineEnd.2)
  else if gap.rest.isEmpty then
    (none, ⟨[], start, l.pending⟩)
  else
    let (kind, text) := Lexeme.scan gap.rest
    let stop := start.after text.taken
    let pending := if kind = .illegal then l.pending else kind.endsStatement
    (some ⟨⟨kind, .ofList text.taken⟩, start, stop⟩, ⟨text.rest, stop, pending⟩)

/-! ### All lexemes -/

/-- How far a lexer is from the end.  A pending semicolon counts, because it can be produced without
any text being read; a character counts twice, because reading it can make one pending. -/
def measure (l : Lexer) : Nat := 2 * l.rest.length + l.pending.toNat

theorem length_rest_lineEnd (l : Lexer) : l.lineEnd.2.rest.length ≤ l.rest.length := by
  have h : (Cut.run isBlank l.rest).rest.length ≤ l.rest.length := by
    have hw := congrArg List.length (Cut.whole_run isBlank l.rest)
    simp only [Cut.whole, List.length_append] at hw
    omega
  unfold lineEnd
  simp only
  split
  · next cs heq =>
      rw [heq] at h
      simp only [List.length_cons] at h
      exact Nat.le_of_succ_le h
  · exact h

theorem pending_lineEnd (l : Lexer) : l.lineEnd.2.pending = false := by
  unfold lineEnd
  simp only
  split <;> rfl

/-- Every lexeme brings the lexer closer to the end. -/
theorem measure_next_lt {l m : Lexer} {t : Lexeme} (h : l.next = (some t, m)) :
    m.measure < l.measure := by
  unfold next at h
  simp only at h
  split at h
  · next hp =>
      simp only [Bool.and_eq_true] at hp
      obtain ⟨-, rfl⟩ := Prod.mk.injEq .. ▸ h
      have := length_rest_lineEnd l
      simp only [measure, pending_lineEnd, hp.1, Bool.toNat_false, Bool.toNat_true]
      omega
  · split at h
    · simp at h
    · next hne =>
        obtain ⟨-, rfl⟩ := Prod.mk.injEq .. ▸ h
        have hgap := congrArg List.length (Trivia.whole_cut l.rest)
        have hlt : (Lexeme.scan (Trivia.cut l.rest).rest).2.rest.length
            < (Trivia.cut l.rest).rest.length := by
          cases hr : (Trivia.cut l.rest).rest with
          | nil => simp [hr] at hne
          | cons c cs =>
              have := Cut.length_rest_lt (Lexeme.taken_scan_ne_nil c cs)
              rwa [Lexeme.whole_scan] at this
        simp only [Cut.whole, List.length_append] at hgap
        simp only [measure]
        exact Nat.lt_of_le_of_lt (Nat.add_le_add_left (Bool.toNat_le _) _) (by omega)

/-- The lexemes that are left, in order. -/
def lexemes (l : Lexer) : List Lexeme :=
  match _h : l.next with
  | (none, _) => []
  | (some t, m) => t :: m.lexemes
termination_by l.measure
decreasing_by exact measure_next_lt _h

end Lexer

/-! ### Reading a whole text -/

/-- The lexemes of a text. -/
def Lexeme.ofText (text : List Char) : List Lexeme := (Lexer.ofText text).lexemes

/-- The tokens of a source text. -/
def tokenize (source : String) : List Token := (Lexeme.ofText source.toList).map (·.token)

end Caret
