/-
**The longest word or operator.**

What is neither a number nor a quoted literal is read as far as it goes.  A word goes on as long as
there are word characters, and only the whole of it can be a keyword.  An operator is the one with the
longest spelling that the text starts with; the scanner, which decides by one character after the other,
finds the same one.  A character that no spelling starts with is read alone.

Main definitions:

* `Caret.IsLongestPrefix` — the longest initial part of a text that is of some form;
* `Caret.ReadsWord`, `Caret.ReadsSymbol` — a token is the word, or the operator or illegal character,
  that a text starts with.

Main results:

* `Caret.isLongestPrefix_run` — a run is the longest initial part of characters of a class;
* `Caret.Operator.isLongestPrefix_of_read?` — the operator read has the longest spelling;
* `Caret.readsWord_of_scan`, `Caret.readsSymbol_of_scan` — what the first character of a text decides;
* `Caret.word_or_operator_longest` — **wherever neither a number nor a literal starts, the longest word
  or operator is read**.
-/

import Caret.Proofs.LongestMatch
import Caret.Proofs.Recount

set_option relaxedAutoImplicit false
set_option autoImplicit false

namespace Caret

/-! ### Longest initial parts -/

/-- The longest initial part of the text `cs` that is of the form `P`: every other one is an initial
part of it. -/
structure IsLongestPrefix (P : List Char → Prop) (cs w : List Char) : Prop where
  form : P w
  initial : w <+: cs
  longest : ∀ v, P v → v <+: cs → v <+: w

/-- A text of word characters. -/
def IsWordText (w : List Char) : Prop := ∀ c ∈ w, isWordChar c = true

/-- The spelling of an operator or delimiter. -/
def Operator.IsSpelling (w : List Char) : Prop := ∃ o : Operator, w = o.spelling.toList

/-- A run is the longest initial part of characters of a class. -/
theorem isLongestPrefix_run (p : Char → Bool) (cs : List Char) :
    IsLongestPrefix (fun w => ∀ c ∈ w, p c = true) cs (Cut.run p cs).taken := by
  refine ⟨Cut.forall_mem_run p cs, List.takeWhile_prefix p, ?_⟩
  rintro v hv ⟨tail, rfl⟩
  rw [Cut.run, List.takeWhile_append_of_pos hv]
  exact List.prefix_append _ _

/-- The operator read has the longest spelling that the text starts with. -/
theorem Operator.isLongestPrefix_of_read? {cs rest : List Char} {o : Operator}
    (h : read? cs = some (o, rest)) : IsLongestPrefix IsSpelling cs o.spelling.toList := by
  obtain ⟨hcs, hlongest⟩ := read?_eq_some_iff_longest.1 h
  have hinitial : o.spelling.toList <+: cs := ⟨rest, hcs.symm⟩
  refine ⟨⟨o, rfl⟩, hinitial, ?_⟩
  rintro v ⟨p, rfl⟩ hv
  exact List.prefix_of_prefix_length_le hv hinitial (hlongest p hv)

/-! ### Words and symbols -/

/-- The token is the word that the text `left` starts with: all of its word characters, and a keyword
exactly if they spell it. -/
structure ReadsWord (left : List Char) (t : Token) : Prop where
  longest : IsLongestPrefix IsWordText left t.text.toList
  keyword_iff : ∀ k, t.kind = .keyword k ↔ t.text = k.spelling
  ident_iff : t.kind = .ident ↔ ∀ k : Keyword, t.text ≠ k.spelling

/-- The token is the operator that the text `left` starts with, or an illegal character. -/
inductive ReadsSymbol (left : List Char) : Token → Prop
  /-- The spelling is the longest one that the text starts with. -/
  | operator {o : Operator} : IsLongestPrefix Operator.IsSpelling left o.spelling.toList →
      ReadsSymbol left ⟨.op o, o.spelling⟩
  /-- The text starts with no spelling, and its first character is taken alone. -/
  | illegal {c : Char} {rest : List Char} : left = c :: rest →
      (∀ o : Operator, ¬ o.spelling.toList <+: left) →
      ReadsSymbol left ⟨.illegal, String.ofList [c]⟩

theorem Kind.ofWord_eq_keyword_iff {word : String} {k : Keyword} :
    ofWord word = .keyword k ↔ word = k.spelling := by
  rw [← Keyword.ofWord?_eq_some_iff]
  cases h : Keyword.ofWord? word with
  | none => simp [ofWord_of_eq_none h]
  | some l => simp [ofWord_of_eq_some h]

theorem Kind.ofWord_eq_ident_iff {word : String} :
    ofWord word = .ident ↔ ∀ k : Keyword, word ≠ k.spelling := by
  constructor
  · intro h k hk
    rw [ofWord_eq_keyword_iff.2 hk] at h
    exact absurd h (by simp)
  · intro h
    rcases ofWord_cases word with hident | ⟨k, -, hk⟩
    · exact hident
    · exact absurd hk (h k)

section

variable {left : List Char} {c : Char} {kind : Kind} {text : Cut}

/-- A letter starts a word. -/
theorem readsWord_of_scan (hc : left.head? = some c) (hl : isLetter c = true)
    (h : Lexeme.scan left = (kind, text)) : ReadsWord left ⟨kind, String.ofList text.taken⟩ := by
  obtain ⟨cs, rfl⟩ := List.head?_eq_some_iff.1 hc
  obtain ⟨rfl, rfl⟩ := Prod.mk.inj ((Lexeme.scan_letter cs hl).symm.trans h)
  refine ⟨?_, fun k => Kind.ofWord_eq_keyword_iff, Kind.ofWord_eq_ident_iff⟩
  rw [String.toList_ofList]
  exact isLongestPrefix_run isWordChar (c :: cs)

/-- What starts neither a word, a number nor a literal is an operator or an illegal character. -/
theorem readsSymbol_of_scan (hc : left.head? = some c) (hl : isLetter c = false)
    (hn : Number.starts left = false) (hq : ¬ Lexeme.IsQuote c)
    (h : Lexeme.scan left = (kind, text)) : ReadsSymbol left ⟨kind, String.ofList text.taken⟩ := by
  obtain ⟨cs, rfl⟩ := List.head?_eq_some_iff.1 hc
  cases ho : Operator.read? (c :: cs) with
  | some found =>
      obtain ⟨rfl, rfl⟩ := Prod.mk.inj ((Lexeme.scan_operator hl hn hq ho).symm.trans h)
      rw [String.ofList_toList]
      exact .operator (Operator.isLongestPrefix_of_read? ho)
  | none =>
      obtain ⟨rfl, rfl⟩ := Prod.mk.inj ((Lexeme.scan_illegal hl hn hq ho).symm.trans h)
      exact .illegal rfl (Operator.read?_eq_none_iff.1 ho)

end

/-! ### Wherever a word or an operator starts -/

section

variable {text left : List Char} {l m : Lexer} {t : Lexeme}

/-- A move where neither a number nor a literal starts reads a word or a symbol. -/
theorem Lexer.Step.word_or_symbol (hl : Lexer.InText text l) (h : Lexer.Step l t m)
    (hleft : slice text t.start.offset (utf8Length text) = left) (hmark : t.token ≠ .lineEnd)
    (hn : Number.starts left = false) (hq : ∀ c ∈ left.head?, ¬ Lexeme.IsQuote c) :
    ∃ c, left.head? = some c ∧ (isLetter c = true → ReadsWord left t.token) ∧
      (isLetter c = false → ReadsSymbol left t.token) := by
  cases h with
  | newline => exact absurd rfl hmark
  | lineEnd => exact absurd rfl hmark
  | @token gap span rest kind hr _ _ hs _ hscan =>
      obtain rfl := (hl.slice_behind hr).symm.trans hleft
      obtain ⟨c, tail, rfl⟩ := List.exists_cons_of_ne_nil hs
      exact ⟨c, rfl, fun hletter => readsWord_of_scan rfl hletter hscan,
        fun hletter => readsSymbol_of_scan rfl hletter hn (hq c rfl) hscan⟩

end

/-- **Wherever neither a number nor a literal starts, the longest word or operator is read.**  A call
that finds a token, and not the mark of the end of a line, decides by the first character of what is
left of the text.  A letter starts a word, which is the longest run of word characters, and the token is
a keyword exactly if the whole run spells it.  Anything else is the operator with the longest spelling
that the text starts with, or a single character if it starts with none. -/
theorem word_or_operator_longest (source : String) (n : Nat) :
    ∀ t, (Lexeme.ofText source.toList)[n]? = some t →
      let left := slice source.toList t.start.offset (utf8Length source.toList)
      (∃ s m, (Checked.Scanner.ofText source.toList).afterCalls? n = some s ∧
        s.next? = some (some t, m)) ∧
      (t.token ≠ .lineEnd → Number.starts left = false → (∀ c ∈ left.head?, ¬ Lexeme.IsQuote c) →
        ∃ c, left.head? = some c ∧ (isLetter c = true → ReadsWord left t.token) ∧
          (isLetter c = false → ReadsSymbol left t.token)) := by
  intro t ht left
  obtain ⟨s, hs, hnext⟩ := Checked.Scanner.next?_afterCalls? source.toList n
  rw [ht] at hnext
  refine ⟨⟨s, _, hs, hnext⟩, fun hmark hn hq => ?_⟩
  obtain ⟨l, m, hl, h⟩ :=
    Lexer.exists_step_of_mem (Lexer.inText_ofText _) (List.mem_of_getElem? ht)
  exact h.word_or_symbol hl rfl hmark hn hq

/-- A word that goes on behind a keyword is none, and two periods in front of a number are not read as
one operator. -/
theorem word_or_operator_longest_period :
    let text := "go1..5".toList
    let word : Lexeme := ⟨⟨.ident, "go1"⟩, ⟨1, 1, 0⟩, ⟨1, 4, 3⟩⟩
    let period : Lexeme := ⟨⟨.op .period, "."⟩, ⟨1, 4, 3⟩, ⟨1, 5, 4⟩⟩
    (Lexeme.ofText text)[0]? = some word ∧ (Lexeme.ofText text)[1]? = some period ∧
      Number.starts text = false ∧ Number.starts "..5".toList = false ∧
      ReadsWord text word.token ∧ ReadsSymbol "..5".toList period.token := by
  intro text word period
  have hlexemes : Lexeme.ofText text
      = word :: period :: Lexer.lexemes ⟨['.', '5'], ⟨1, 5, 4⟩, false⟩ :=
    calc Lexeme.ofText text
        = word :: Lexer.lexemes ⟨['.', '.', '5'], ⟨1, 4, 3⟩, true⟩ :=
          Lexer.lexemes_of_step (Lexer.step_of_next (by decide))
      _ = _ := congrArg _ (Lexer.lexemes_of_step (Lexer.step_of_next (by decide)))
  have hword : (Lexeme.ofText text)[0]? = some word := by rw [hlexemes]; rfl
  have hperiod : (Lexeme.ofText text)[1]? = some period := by rw [hlexemes]; rfl
  obtain ⟨-, hfirst⟩ := word_or_operator_longest "go1..5" 0 word hword
  obtain ⟨-, hsecond⟩ := word_or_operator_longest "go1..5" 1 period hperiod
  have hg : ∀ c ∈ some 'g', ¬ Lexeme.IsQuote c := by simp [Lexeme.IsQuote]
  have hdot : ∀ c ∈ some '.', ¬ Lexeme.IsQuote c := by simp [Lexeme.IsQuote]
  obtain ⟨c, hc, hread, -⟩ := hfirst (by decide) (by decide) hg
  obtain ⟨d, hd, -, hread'⟩ := hsecond (by decide) (by decide) hdot
  obtain rfl : 'g' = c := Option.some.inj hc
  obtain rfl : '.' = d := Option.some.inj hd
  exact ⟨hword, hperiod, by decide, by decide, hread (by decide), hread' (by decide)⟩

end Caret
