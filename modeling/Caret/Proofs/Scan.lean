/-
**What the front of a text is read as.**

The first characters of a text decide which reader takes the lexeme at its front.  This module says
so with one equation for each reader, and draws the consequences for the kind: which kinds a reader
gives, and that a token of a kind with a fixed spelling is written with it.

Main definitions:

* `Caret.Lexeme.IsQuote` — the characters that open a literal;
* `Caret.Lexeme.quoteKind`, `Caret.Quoted.cut` — the kind of a literal, and the rest of it, by its
  opening quote.

Main results:

* `Caret.Lexeme.scan_letter`, `Caret.Lexeme.scan_number`, `Caret.Lexeme.scan_quote`,
  `Caret.Lexeme.scan_operator`, `Caret.Lexeme.scan_illegal` — one equation for each reader;
* `Caret.Lexeme.scan_cases` — there are no other cases;
* `Caret.Lexeme.isQuote_of_scan`, `Caret.Lexeme.isLetter_of_scan` — which reader gives a kind;
* `Caret.Lexeme.spelling_of_scan` — what has a fixed spelling is spelled that way.
-/

import Caret.Lexeme.Basic

set_option relaxedAutoImplicit false
set_option autoImplicit false

namespace Caret

/-! ### Kinds -/

theorem Kind.ofWord_of_eq_none {word : String} (h : Keyword.ofWord? word = none) :
    ofWord word = .ident := by
  simp [ofWord, h]

theorem Kind.ofWord_of_eq_some {word : String} {k : Keyword} (h : Keyword.ofWord? word = some k) :
    ofWord word = .keyword k := by
  simp [ofWord, h]

/-- A word is an identifier, or a keyword that it spells. -/
theorem Kind.ofWord_cases (word : String) :
    ofWord word = .ident ∨ ∃ k : Keyword, ofWord word = .keyword k ∧ word = k.spelling := by
  cases h : Keyword.ofWord? word with
  | none => exact Or.inl (ofWord_of_eq_none h)
  | some k => exact Or.inr ⟨k, ofWord_of_eq_some h, Keyword.ofWord?_eq_some_iff.1 h⟩

theorem Number.kind_cases (n : Number) : n.kind = .imag ∨ n.kind = .float ∨ n.kind = .int := by
  unfold kind
  split
  · exact Or.inl rfl
  · split
    · exact Or.inr (Or.inl rfl)
    · exact Or.inr (Or.inr rfl)

/-! ### Quotes -/

/-- The rest of a literal behind its opening quote. -/
def Quoted.cut (quote : Char) : List Char → Cut :=
  if quote = '\x60' then cutRaw else cutInterpreted quote

@[simp] theorem Quoted.whole_cut (quote : Char) (cs : List Char) :
    (Quoted.cut quote cs).whole = cs := by
  unfold Quoted.cut
  split <;> simp

namespace Lexeme

/-- The characters that open a string or a rune. -/
def IsQuote (c : Char) : Prop := c = '"' ∨ c = '\'' ∨ c = '\x60'

/-- The kind of a literal. -/
def quoteKind (quote : Char) : Kind := if quote = '\'' then .char else .string

theorem quoteKind_cases (quote : Char) : quoteKind quote = .char ∨ quoteKind quote = .string := by
  unfold quoteKind
  split
  · exact Or.inl rfl
  · exact Or.inr rfl

theorem isLetter_of_isQuote {c : Char} (h : IsQuote c) : isLetter c = false := by
  rcases h with rfl | rfl | rfl <;> decide

theorem starts_of_isQuote {c : Char} (cs : List Char) (h : IsQuote c) :
    Number.starts (c :: cs) = false := by
  rcases h with rfl | rfl | rfl <;> simp [Number.starts]

/-! ### One equation for each reader -/

theorem scan_letter {c : Char} (cs : List Char) (h : isLetter c = true) :
    scan (c :: cs) = (.ofWord (String.ofList (Word.cut (c :: cs)).taken), Word.cut (c :: cs)) := by
  simp [scan, h]

theorem scan_number {c : Char} {cs : List Char} (hl : isLetter c = false)
    (hn : Number.starts (c :: cs) = true) :
    scan (c :: cs) = ((Number.read (c :: cs)).1.kind, Number.cut (c :: cs)) := by
  simp [scan, hl, hn]

theorem scan_quote {c : Char} (cs : List Char) (h : IsQuote c) :
    scan (c :: cs) = (quoteKind c, (Quoted.cut c cs).keep [c]) := by
  have hl := isLetter_of_isQuote h
  have hs := starts_of_isQuote cs h
  rcases h with rfl | rfl | rfl <;> simp [scan, hl, hs, quoteKind, Quoted.cut]

theorem scan_operator {c : Char} {cs rest : List Char} {o : Operator} (hl : isLetter c = false)
    (hn : Number.starts (c :: cs) = false) (hq : ¬ IsQuote c)
    (ho : Operator.read? (c :: cs) = some (o, rest)) :
    scan (c :: cs) = (.op o, ⟨o.spelling.toList, rest⟩) := by
  simp only [IsQuote, not_or] at hq
  simp only [scan, hl, hn, hq, ho, if_false, Bool.false_eq_true]

theorem scan_illegal {c : Char} {cs : List Char} (hl : isLetter c = false)
    (hn : Number.starts (c :: cs) = false) (hq : ¬ IsQuote c)
    (ho : Operator.read? (c :: cs) = none) : scan (c :: cs) = (.illegal, ⟨[c], cs⟩) := by
  simp only [IsQuote, not_or] at hq
  simp only [scan, hl, hn, hq, ho, if_false, Bool.false_eq_true]

/-- The front of a text is a word, a number, a literal, an operator, or a character that is none of
these. -/
theorem scan_cases (c : Char) (cs : List Char) :
    (isLetter c = true ∧ scan (c :: cs)
      = (.ofWord (String.ofList (Word.cut (c :: cs)).taken), Word.cut (c :: cs))) ∨
    (Number.starts (c :: cs) = true ∧
      scan (c :: cs) = ((Number.read (c :: cs)).1.kind, Number.cut (c :: cs))) ∨
    (IsQuote c ∧ scan (c :: cs) = (quoteKind c, (Quoted.cut c cs).keep [c])) ∨
    (∃ o rest, Operator.read? (c :: cs) = some (o, rest) ∧
      scan (c :: cs) = (.op o, ⟨o.spelling.toList, rest⟩)) ∨
    (Operator.read? (c :: cs) = none ∧ scan (c :: cs) = (.illegal, ⟨[c], cs⟩)) := by
  cases hl : isLetter c with
  | true => exact Or.inl ⟨rfl, scan_letter cs hl⟩
  | false =>
      right
      cases hn : Number.starts (c :: cs) with
      | true => exact Or.inl ⟨rfl, scan_number hl hn⟩
      | false =>
          right
          by_cases hq : IsQuote c
          · exact Or.inl ⟨hq, scan_quote cs hq⟩
          · right
            cases ho : Operator.read? (c :: cs) with
            | some p => exact Or.inl ⟨p.1, p.2, rfl, scan_operator hl hn hq ho⟩
            | none => exact Or.inr ⟨rfl, scan_illegal hl hn hq ho⟩

/-! ### Kinds and readers -/

variable {c : Char} {cs : List Char} {kind : Kind} {text : Cut}

/-- Only a quote opens a string or a rune. -/
theorem isQuote_of_scan (h : scan (c :: cs) = (kind, text)) (hk : kind = .string ∨ kind = .char) :
    IsQuote c := by
  rcases scan_cases c cs with ⟨-, hs⟩ | ⟨-, hs⟩ | ⟨hq, -⟩ | ⟨o, rest, -, hs⟩ | ⟨-, hs⟩
  · rw [h, Prod.mk.injEq] at hs
    rcases Kind.ofWord_cases (String.ofList (Word.cut (c :: cs)).taken) with hw | ⟨k, hw, -⟩ <;>
      simp [hs.1, hw] at hk
  · rw [h, Prod.mk.injEq] at hs
    rcases Number.kind_cases (Number.read (c :: cs)).1 with hn | hn | hn <;> simp [hs.1, hn] at hk
  · exact hq
  · simp [(Prod.mk.inj (h.symm.trans hs)).1] at hk
  · simp [(Prod.mk.inj (h.symm.trans hs)).1] at hk

/-- Only a letter starts an identifier. -/
theorem isLetter_of_scan (h : scan (c :: cs) = (.ident, text)) : isLetter c = true := by
  rcases scan_cases c cs with ⟨hl, -⟩ | ⟨-, hs⟩ | ⟨-, hs⟩ | ⟨o, rest, -, hs⟩ | ⟨-, hs⟩
  · exact hl
  · have hk := (Prod.mk.inj (h.symm.trans hs)).1
    rcases Number.kind_cases (Number.read (c :: cs)).1 with hn | hn | hn <;> simp [hn] at hk
  · have hk := (Prod.mk.inj (h.symm.trans hs)).1
    rcases quoteKind_cases c with hq | hq <;> simp [hq] at hk
  · exact absurd (Prod.mk.inj (h.symm.trans hs)).1 (by simp)
  · exact absurd (Prod.mk.inj (h.symm.trans hs)).1 (by simp)

/-- What has a fixed spelling is spelled that way. -/
theorem spelling_of_scan (h : scan (c :: cs) = (kind, text)) (hk : kind.isLiteral = false) :
    text.taken = kind.spelling.toList := by
  rcases scan_cases c cs with ⟨-, hs⟩ | ⟨-, hs⟩ | ⟨-, hs⟩ | ⟨o, rest, -, hs⟩ | ⟨-, hs⟩
  · obtain ⟨rfl, rfl⟩ := Prod.mk.inj (h.symm.trans hs)
    rcases Kind.ofWord_cases (String.ofList (Word.cut (c :: cs)).taken) with hw | ⟨k, hw, hsp⟩
    · simp [hw, Kind.isLiteral] at hk
    · rw [hw, Kind.spelling, ← hsp, String.toList_ofList]
  · obtain ⟨rfl, rfl⟩ := Prod.mk.inj (h.symm.trans hs)
    rcases Number.kind_cases (Number.read (c :: cs)).1 with hn | hn | hn <;>
      simp [hn, Kind.isLiteral] at hk
  · obtain ⟨rfl, rfl⟩ := Prod.mk.inj (h.symm.trans hs)
    rcases quoteKind_cases c with hq | hq <;> simp [hq, Kind.isLiteral] at hk
  · obtain ⟨rfl, rfl⟩ := Prod.mk.inj (h.symm.trans hs)
    rfl
  · obtain ⟨rfl, rfl⟩ := Prod.mk.inj (h.symm.trans hs)
    simp [Kind.isLiteral] at hk

end Lexeme

end Caret
