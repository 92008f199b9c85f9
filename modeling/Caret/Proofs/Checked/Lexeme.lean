/-
**Scanning a lexeme.**

A scanner reads the lexeme at its place character by character and looks ahead before it decides how
to go on.  The text of a word is sliced out between the place where the word starts and the place
reached.  A number is read part by part, and every part tells whether it is there.  A quoted literal
is a loop that ends at the closing quote, at the end of the line or with the text.  Each of these
readers gives the kind that the lexer gives, and stands behind the text that the lexer takes.

Main definitions:

* `Caret.Checked.Scanner.scanWord?`, `Caret.Checked.Scanner.scanNumber?`,
  `Caret.Checked.Scanner.scanQuoted?`, `Caret.Checked.Scanner.scanRaw?` — the readers;
* `Caret.Checked.Scanner.scan?` — the reader that the next character asks for.

Main results:

* `Caret.Checked.Scanner.scanWord?_ofLexer`, `Caret.Checked.Scanner.scanNumber?_ofLexer`,
  `Caret.Checked.Scanner.scanQuoted?_ofLexer`, `Caret.Checked.Scanner.scanRaw?_ofLexer` — what each
  of them gives;
* `Caret.Checked.Scanner.scan?_ofLexer` — **every lexeme is read as the lexer reads it**, and nothing
  fails on the way.
-/

import Caret.Proofs.Checked.Symbol
import Caret.Proofs.Literal

set_option relaxedAutoImplicit false
set_option autoImplicit false

namespace Caret.Checked.Scanner

open Lexer (InText)
open Number (Radix)

/-! ### The readers -/

/-- A word.  It is sliced out of the text to look it up among the keywords. -/
def scanWord? (s : Scanner) : Option (Kind × Scanner) := do
  let behind ← s.advanceWhile? isWordChar
  let word ← slice? s.position.offset behind.position.offset behind.text
  return (.ofWord (String.ofList word), behind)

/-- The radix that the next character sets behind a leading zero. -/
def scanRadix? (s : Scanner) : Option (Radix × Scanner) := do
  match (← s.peek?).bind Radix.ofMark? with
  | some radix => return (radix, ← s.advance?)
  | none => return (.decimal, s)

/-- The radix and the integer part of a number; a point stands in front of a missing one. -/
def scanInteger? (s : Scanner) : Option (Radix × Scanner) := do
  if (← s.peek?) = some '.' then return (.decimal, s)
  else
    let (isZero, s) ← s.advanceIf? '0'
    let (radix, s) ← if isZero then s.scanRadix? else some (.decimal, s)
    return (radix, ← s.advanceWhile? radix.isDigit)

/-- The fraction of a number, and whether there is one. -/
def scanFraction? (radix : Radix) (s : Scanner) : Option (Bool × Scanner) := do
  if radix = .small then return (false, s)
  else
    let (isPoint, s) ← s.advanceIf? '.'
    if isPoint then return (true, ← s.advanceWhile? radix.isDigit) else return (false, s)

/-- The sign and the digits of an exponent. -/
def scanSigned? (s : Scanner) : Option Scanner := do
  let sign ← s.peek?
  let s ← if sign = some '+' ∨ sign = some '-' then s.advance? else some s
  s.advanceWhile? Number.isDigit

/-- The exponent of a number, and whether there is one. -/
def scanExponent? (radix : Radix) (s : Scanner) : Option (Bool × Scanner) := do
  if (← s.peek?).any radix.isExponentMark then return (true, ← (← s.advance?).scanSigned?)
  else return (false, s)

/-- A number. -/
def scanNumber? (s : Scanner) : Option (Kind × Scanner) := do
  let (radix, s) ← s.scanInteger?
  let (hasFraction, s) ← s.scanFraction? radix
  let (hasExponent, s) ← s.scanExponent? radix
  let (isImaginary, s) ← s.advanceIf? 'i'
  return (if isImaginary then .imag else if hasFraction || hasExponent then .float else .int, s)

/-- What follows the opening quote of an interpreted literal. -/
def quotedRest? (quote : Char) (s : Scanner) : Option Scanner := do
  match ← s.peek? with
  | none => return s
  | some c =>
    if c = '\n' then return s
    else if c = '\\' then
      let s ← s.advance?
      if (← s.peek?).any (· ≠ '\n') then (← s.advance?) |>.quotedRest? quote
      else s |>.quotedRest? quote
    else if c = quote then s.advance?
    else (← s.advance?) |>.quotedRest? quote
partial_fixpoint

/-- What follows the opening quote of a raw string. -/
def rawRest? (s : Scanner) : Option Scanner := do
  match ← s.peek? with
  | none => return s
  | some c =>
    let s ← s.advance?
    if c = '\x60' then return s else s |>.rawRest?
partial_fixpoint

/-- An interpreted literal. -/
def scanQuoted? (quote : Char) (s : Scanner) : Option Scanner := do
  quotedRest? quote (← s.advance?)

/-- A raw string. -/
def scanRaw? (s : Scanner) : Option Scanner := do
  rawRest? (← s.advance?)

/-- Does the next character, which is `c`, start a number? -/
def startsNumber? (c : Char) (s : Scanner) : Option Bool := do
  if c.isDigit then return true
  else if c = '.' then return (← s.peekNth? 1).any Char.isDigit
  else return false

/-- The lexeme whose first character is `c`. -/
def scan? (c : Char) (s : Scanner) : Option (Kind × Scanner) := do
  if isLetter c then s.scanWord?
  else if ← s.startsNumber? c then s.scanNumber?
  else if c = '"' then return (.string, ← s.scanQuoted? c)
  else if c = '\'' then return (.char, ← s.scanQuoted? c)
  else if c = '\x60' then return (.string, ← s.scanRaw?)
  else s.scanOperator? c

/-! ### Words -/

variable {text : List Char} {l : Lexer}

/-- The text that a scanner has moved over is sliced out between its places. -/
theorem slice?_past (h : InText text l) {c : Cut} (hc : c.whole = l.rest) :
    slice? l.position.offset (l.past c).position.offset text = some c.taken := by
  obtain ⟨front, htext, hoff⟩ := h
  rw [Lexer.position_past, Position.offset_after, hoff, htext, ← hc]
  exact slice?_append front c.taken c.rest

theorem scanWord?_ofLexer (h : InText text l) :
    (ofLexer text l).scanWord? = some (.ofWord (String.ofList (Word.cut l.rest).taken),
      .ofLexer text (l.past (Word.cut l.rest))) := by
  have hslice := slice?_past h (Word.whole_cut l.rest)
  rw [scanWord?, advanceWhile?_ofLexer isWordChar h]
  simp only [Option.bind_eq_bind, Option.bind_some]
  change (slice? l.position.offset (l.past (Word.cut l.rest)).position.offset text).bind _ = _
  rw [hslice]
  rfl

/-! ### Numbers -/

theorem scanRadix?_of_mark (h : InText text l) {mark : Char} {cs : List Char} {radix : Radix}
    (hr : l.rest = mark :: cs) (hm : Radix.ofMark? mark = some radix) :
    (ofLexer text l).scanRadix? = some (radix, .ofLexer text (l.past ⟨[mark], cs⟩)) := by
  rw [scanRadix?, peek?_ofLexer h, hr]
  simp only [Option.bind_eq_bind, Option.bind_some, List.head?_cons, hm, advance?_ofLexer h hr]
  rfl

theorem scanRadix?_of_none (h : InText text l)
    (hm : ∀ mark ∈ l.rest.head?, Radix.ofMark? mark = none) :
    (ofLexer text l).scanRadix? = some (.decimal, .ofLexer text l) := by
  have hnone : l.rest.head?.bind Radix.ofMark? = none := by
    rw [Option.bind_eq_none_iff]
    exact fun mark hmark => hm mark hmark
  rw [scanRadix?, peek?_ofLexer h]
  simp only [Option.bind_eq_bind, Option.bind_some, hnone]
  rfl

/-- Without a mark behind a leading zero the integer part is a run of digits. -/
theorem cutInteger_of_no_mark {cs : List Char}
    (h : cs.head? = some '0' → ∀ mark ∈ cs.tail.head?, Radix.ofMark? mark = none) :
    Number.cutInteger cs = (.decimal, .run Number.isDigit cs) := by
  cases cs with
  | nil => rfl
  | cons c cs => exact Number.cutInteger_eq_run fun hc => h (congrArg some hc)

theorem scanInteger?_ofLexer (h : InText text l) : (ofLexer text l).scanInteger?
    = some ((Number.cutInteger l.rest).1, .ofLexer text (l.past (Number.cutInteger l.rest).2)) := by
  rw [scanInteger?, peek?_ofLexer h]
  simp only [Option.bind_eq_bind, Option.bind_some]
  by_cases hzero : l.rest.head? = some '0'
  · obtain ⟨cs, hr⟩ := List.head?_eq_some_iff.1 hzero
    have hin : InText text (l.past ⟨['0'], cs⟩) := h.past_cons hr
    rw [hr, if_neg (by simp), advanceIf?_ofLexer h hr]
    simp only [Option.bind_some, if_true]
    by_cases hmark : ∀ mark ∈ cs.head?, Radix.ofMark? mark = none
    · rw [scanRadix?_of_none hin hmark, @cutInteger_of_no_mark ('0' :: cs) fun _ => hmark,
        Cut.run_cons_of_pos cs (by decide)]
      simp only [Option.bind_some, advanceWhile?_ofLexer _ hin, Lexer.past_past]
      rfl
    · push Not at hmark
      obtain ⟨mark, hhead, hsome⟩ := hmark
      obtain ⟨cs, rfl⟩ := List.head?_eq_some_iff.1 hhead
      obtain ⟨radix, hm⟩ := Option.ne_none_iff_exists'.1 hsome
      have hin' : InText text ((l.past ⟨['0'], mark :: cs⟩).past ⟨[mark], cs⟩) := hin.past rfl
      rw [scanRadix?_of_mark hin rfl hm, Number.cutInteger_mark cs hm]
      simp only [Option.bind_some, advanceWhile?_ofLexer _ hin']
      rw [Lexer.past_past, Lexer.past_past]
      rfl
  · rw [cutInteger_of_no_mark fun h => absurd h hzero]
    by_cases hpoint : l.rest.head? = some '.'
    · obtain ⟨cs, hr⟩ := List.head?_eq_some_iff.1 hpoint
      rw [if_pos hpoint, hr, Cut.run_cons_of_neg cs (by decide), ← hr, Lexer.past_nothing]
      rfl
    · rw [if_neg hpoint, advanceIf?_ofLexer_ne h hzero]
      simp only [Option.bind_some, Bool.false_eq_true, if_false, advanceWhile?_ofLexer _ h]
      rfl

theorem scanFraction?_ofLexer (radix : Radix) (h : InText text l) :
    (ofLexer text l).scanFraction? radix = some ((Number.cutFraction radix l.rest).taken != [],
      .ofLexer text (l.past (Number.cutFraction radix l.rest))) := by
  rw [scanFraction?]
  by_cases hpoint : l.rest.head? = some '.'
  · obtain ⟨cs, hr⟩ := List.head?_eq_some_iff.1 hpoint
    have hin : InText text (l.past ⟨['.'], cs⟩) := h.past_cons hr
    by_cases hsmall : radix = .small
    · rw [if_pos hsmall, hr, Number.cutFraction, if_pos hsmall, ← hr, Lexer.past_nothing]
      rfl
    · rw [if_neg hsmall, advanceIf?_ofLexer h hr, hr, Number.cutFraction, if_neg hsmall]
      simp only [Option.bind_eq_bind, Option.bind_some, if_true, advanceWhile?_ofLexer _ hin,
        Lexer.past_past]
      rfl
  · have hcut : Number.cutFraction radix l.rest = .nothing l.rest := by
      cases hr : l.rest with
      | nil => rfl
      | cons c cs =>
          refine Number.cutFraction_stop (fun hc => hpoint ?_) cs
          rw [hr, hc.1]
          rfl
    rw [hcut, Lexer.past_nothing]
    by_cases hsmall : radix = .small
    · rw [if_pos hsmall]
      rfl
    · rw [if_neg hsmall, advanceIf?_ofLexer_ne h hpoint]
      rfl

theorem scanSigned?_ofLexer (h : InText text l) : (ofLexer text l).scanSigned?
    = some (.ofLexer text (l.past (Number.cutSigned l.rest))) := by
  rw [scanSigned?, peek?_ofLexer h]
  simp only [Option.bind_eq_bind, Option.bind_some]
  cases hr : l.rest with
  | nil => simp [Number.cutSigned, advanceWhile?_ofLexer _ h, hr, Cut.run, Cut.nothing]
  | cons c cs =>
      have hin : InText text (l.past ⟨[c], cs⟩) := h.past_cons hr
      rw [List.head?_cons, Number.cutSigned]
      by_cases hc : c = '+' ∨ c = '-'
      · rw [if_pos hc, if_pos (by simpa using hc), advance?_ofLexer h hr, Option.bind_some,
          advanceWhile?_ofLexer _ hin, Lexer.past_past]
        rfl
      · rw [if_neg hc, if_neg (by simpa using hc), advanceWhile?_ofLexer _ h, hr]

theorem scanExponent?_ofLexer (radix : Radix) (h : InText text l) :
    (ofLexer text l).scanExponent? radix = some ((Number.cutExponent radix l.rest).taken != [],
      .ofLexer text (l.past (Number.cutExponent radix l.rest))) := by
  rw [scanExponent?, peek?_ofLexer h]
  simp only [Option.bind_eq_bind, Option.bind_some]
  cases hr : l.rest with
  | nil =>
      rw [Number.cutExponent, ← hr, Lexer.past_nothing, hr]
      rfl
  | cons c cs =>
      have hin : InText text (l.past ⟨[c], cs⟩) := h.past_cons hr
      rw [List.head?_cons, Option.any_some, Number.cutExponent]
      by_cases hc : radix.isExponentMark c = true
      · rw [if_pos hc, if_pos hc, advance?_ofLexer h hr, Option.bind_some, scanSigned?_ofLexer hin,
          Lexer.past_past]
        rfl
      · rw [if_neg hc, if_neg hc, ← hr, Lexer.past_nothing]
        rfl

theorem advanceIf?_suffix (h : InText text l) :
    (ofLexer text l).advanceIf? 'i' = some ((Number.cutSuffix l.rest).taken != [],
      .ofLexer text (l.past (Number.cutSuffix l.rest))) := by
  by_cases hi : l.rest.head? = some 'i'
  · obtain ⟨cs, hr⟩ := List.head?_eq_some_iff.1 hi
    rw [advanceIf?_ofLexer h hr, hr]
    rfl
  · have hcut : Number.cutSuffix l.rest = .nothing l.rest := by
      cases hr : l.rest with
      | nil => rfl
      | cons c cs =>
          refine Number.cutSuffix_stop (fun hc => hi ?_) cs
          rw [hr, hc]
          rfl
    rw [advanceIf?_ofLexer_ne h hi, hcut, Lexer.past_nothing]
    rfl

/-- A number is of the kind that the presence of its parts says. -/
theorem kind_eq (n : Number) : n.kind = if n.suffix != [] then .imag
    else if n.fraction != [] || n.exponent != [] then .float else .int := by
  simp [Number.kind]

theorem scanNumber?_ofLexer (h : InText text l) : (ofLexer text l).scanNumber?
    = some ((Number.read l.rest).1.kind, .ofLexer text (l.past (Number.cut l.rest))) := by
  obtain ⟨n, rest, hread⟩ : ∃ n rest, Number.read l.rest = (n, rest) := ⟨_, _, rfl⟩
  have hcut : Number.cut l.rest = ⟨n.text, rest⟩ := by rw [Number.cut, hread]
  obtain ⟨radix, u, v, w, hinteger, hfraction, hexponent, hsuffix⟩ := Number.read_eq_iff.1 hread
  have h₁ : InText text (l.past ⟨n.integer, u⟩) := by
    have hwhole := Number.whole_cutInteger l.rest
    rw [hinteger] at hwhole
    exact h.past hwhole
  have h₂ : InText text ((l.past ⟨n.integer, u⟩).past ⟨n.fraction, v⟩) :=
    h₁.past (hfraction ▸ Number.whole_cutFraction radix u)
  have h₃ : InText text (((l.past ⟨n.integer, u⟩).past ⟨n.fraction, v⟩).past ⟨n.exponent, w⟩) :=
    h₂.past (hexponent ▸ Number.whole_cutExponent radix v)
  have hover : (((l.past ⟨n.integer, u⟩).past ⟨n.fraction, v⟩).past ⟨n.exponent, w⟩).past
      ⟨n.suffix, rest⟩ = l.past (Number.cut l.rest) := by
    simp [hcut, Number.text, Cut.keep]
  rw [scanNumber?, scanInteger?_ofLexer h, hinteger]
  simp only [Option.bind_eq_bind, Option.bind_some, scanFraction?_ofLexer _ h₁,
    scanExponent?_ofLexer _ h₂, advanceIf?_suffix h₃, Lexer.rest_past, hfraction, hexponent, hsuffix]
  rw [hover, hread, kind_eq]
  rfl

/-! ### Quoted literals -/

section

variable {quote c : Char} {cs : List Char}

/-- The loop ends where the text ends or a newline stands. -/
theorem quotedRest?_of_stop (h : InText text l) (hr : ∀ c ∈ l.rest.head?, c = '\n') :
    (ofLexer text l).quotedRest? quote = some (.ofLexer text l) := by
  rw [quotedRest?, peek?_ofLexer h]
  simp only [Option.bind_eq_bind, Option.bind_some]
  cases hc : l.rest.head? with
  | none => rfl
  | some c => exact if_pos (hr c hc)

theorem quotedRest?_of_quote (h : InText text l) (hr : l.rest = quote :: cs) (hn : quote ≠ '\n')
    (hb : quote ≠ '\\') :
    (ofLexer text l).quotedRest? quote = some (.ofLexer text (l.past ⟨[quote], cs⟩)) := by
  rw [quotedRest?, peek?_ofLexer h, hr]
  simp only [Option.bind_eq_bind, Option.bind_some, List.head?_cons, if_neg hn, if_neg hb, if_true,
    advance?_ofLexer h hr]

/-- Any other character is moved over. -/
theorem quotedRest?_of_plain (h : InText text l) (hr : l.rest = c :: cs) (hn : c ≠ '\n')
    (hb : c ≠ '\\') (hq : c ≠ quote) :
    (ofLexer text l).quotedRest? quote = (ofLexer text (l.past ⟨[c], cs⟩)).quotedRest? quote := by
  rw [quotedRest?, peek?_ofLexer h, hr]
  simp only [Option.bind_eq_bind, Option.bind_some, List.head?_cons, if_neg hn, if_neg hb, if_neg hq,
    advance?_ofLexer h hr]

/-- A backslash is moved over together with the character that it escapes. -/
theorem quotedRest?_of_escape (h : InText text l) (hr : l.rest = '\\' :: c :: cs) (hc : c ≠ '\n') :
    (ofLexer text l).quotedRest? quote
      = (ofLexer text (l.past ⟨['\\', c], cs⟩)).quotedRest? quote := by
  have hin : InText text (l.past ⟨['\\'], c :: cs⟩) := h.past_cons hr
  rw [quotedRest?, peek?_ofLexer h, hr]
  simp only [Option.bind_eq_bind, Option.bind_some, List.head?_cons, advance?_ofLexer h hr,
    peek?_ofLexer hin, Lexer.rest_past, Option.any_some, decide_eq_true_iff]
  rw [if_neg (by decide), if_true, if_pos hc, advance?_ofLexer hin rfl, Lexer.past_past]
  rfl

/-- A backslash at the end of the line escapes nothing. -/
theorem quotedRest?_of_backslash (h : InText text l) (hr : l.rest = '\\' :: cs)
    (hc : ∀ c ∈ cs.head?, c = '\n') :
    (ofLexer text l).quotedRest? quote = some (.ofLexer text (l.past ⟨['\\'], cs⟩)) := by
  have hin : InText text (l.past ⟨['\\'], cs⟩) := h.past_cons hr
  have hnone : cs.head?.any (fun c => decide (c ≠ '\n')) = false := by
    rw [Option.any_eq_false]
    intro c hhead
    simp [hc c hhead]
  rw [quotedRest?, peek?_ofLexer h, hr]
  simp only [Option.bind_eq_bind, Option.bind_some, List.head?_cons, advance?_ofLexer h hr,
    peek?_ofLexer hin, Lexer.rest_past, hnone]
  rw [if_neg (by decide), if_true, if_neg (by decide), quotedRest?_of_stop hin hc]

/-- The loop ends where the interpreted literal does. -/
theorem quotedRest?_ofLexer (hn : quote ≠ '\n') (hb : quote ≠ '\\') (h : InText text l) :
    (ofLexer text l).quotedRest? quote
      = some (.ofLexer text (l.past (Quoted.cutInterpreted quote l.rest))) := by
  obtain ⟨cs, hr⟩ : ∃ cs, l.rest = cs := ⟨_, rfl⟩
  rw [hr]
  fun_induction Quoted.cutInterpreted quote cs generalizing l with
  | case1 => rw [quotedRest?_of_stop h (by simp [hr]), ← hr, Lexer.past_nothing]
  | case2 => rw [quotedRest?_of_stop h (by simp [hr]), ← hr, Lexer.past_nothing]
  | case3 c hcn =>
      by_cases hcb : c = '\\'
      · subst hcb
        exact quotedRest?_of_backslash h hr (by simp)
      · by_cases hcq : c = quote
        · subst hcq
          exact quotedRest?_of_quote h hr hn hb
        · rw [quotedRest?_of_plain h hr hcn hcb hcq]
          exact quotedRest?_of_stop (h.past_cons hr) (by simp)
  | case4 d cs => rw [quotedRest?_of_stop h (by simp [hr]), ← hr, Lexer.past_nothing]
  | case5 d cs => exact quotedRest?_of_quote h hr hn hb
  | case6 c d cs _ _ hesc ih =>
      obtain ⟨rfl, hd⟩ := hesc
      rw [quotedRest?_of_escape h hr hd, ih (h.past (c := ⟨['\\', d], cs⟩) hr.symm) rfl,
        Lexer.past_past]
  | case7 c d cs hcn hcq hesc ih =>
      by_cases hcb : c = '\\'
      · -- a newline follows the backslash, and the literal ends there
        obtain rfl : d = '\n' := Classical.not_not.1 fun hd => hesc ⟨hcb, hd⟩
        subst hcb
        rw [Quoted.cutInterpreted_newline]
        exact quotedRest?_of_backslash h hr (by simp)
      · rw [quotedRest?_of_plain h hr hcn hcb hcq, ih (h.past_cons hr) rfl, Lexer.past_past]

/-- The loop ends where the raw string does. -/
theorem rawRest?_ofLexer (h : InText text l) :
    (ofLexer text l).rawRest? = some (.ofLexer text (l.past (Quoted.cutRaw l.rest))) := by
  induction hr : l.rest generalizing l with
  | nil =>
      rw [rawRest?, peek?_ofLexer h, hr, Quoted.cutRaw, ← hr, Lexer.past_nothing, hr]
      rfl
  | cons c cs ih =>
      have hin : InText text (l.past ⟨[c], cs⟩) := h.past_cons hr
      rw [rawRest?, peek?_ofLexer h, hr, Quoted.cutRaw]
      simp only [Option.bind_eq_bind, Option.bind_some, List.head?_cons, advance?_ofLexer h hr]
      by_cases hc : c = '\x60'
      · rw [if_pos hc, if_pos hc]
        rfl
      · rw [if_neg hc, if_neg hc, ih hin rfl, Lexer.past_past]

theorem scanQuoted?_ofLexer (hn : quote ≠ '\n') (hb : quote ≠ '\\') (h : InText text l)
    (hr : l.rest = quote :: cs) : (ofLexer text l).scanQuoted? quote
      = some (.ofLexer text (l.past ((Quoted.cutInterpreted quote cs).keep [quote]))) := by
  have hin : InText text (l.past ⟨[quote], cs⟩) := h.past_cons hr
  rw [scanQuoted?, advance?_ofLexer h hr]
  simp only [Option.bind_eq_bind, Option.bind_some, quotedRest?_ofLexer hn hb hin, Lexer.rest_past]
  rw [Lexer.past_past]

theorem scanRaw?_ofLexer (h : InText text l) (hr : l.rest = c :: cs) : (ofLexer text l).scanRaw?
    = some (.ofLexer text (l.past ((Quoted.cutRaw cs).keep [c]))) := by
  have hin : InText text (l.past ⟨[c], cs⟩) := h.past_cons hr
  rw [scanRaw?, advance?_ofLexer h hr]
  simp only [Option.bind_eq_bind, Option.bind_some, rawRest?_ofLexer hin, Lexer.rest_past]
  rw [Lexer.past_past]

/-! ### Lexemes -/

theorem startsNumber?_ofLexer (h : InText text l) (hr : l.rest = c :: cs) :
    (ofLexer text l).startsNumber? c = some (Number.starts l.rest) := by
  rw [startsNumber?, peekNth?_ofLexer h, hr, List.getElem?_cons_succ, ← List.head?_eq_getElem?,
    Number.starts]
  cases hdigit : c.isDigit with
  | true => rfl
  | false =>
      by_cases hpoint : c = '.'
      · subst hpoint
        rfl
      · rw [if_neg Bool.false_ne_true, if_neg hpoint, beq_eq_false_iff_ne.2 hpoint]
        rfl

/-- Every lexeme is read as the lexer reads it. -/
theorem scan?_ofLexer (h : InText text l) (hr : l.rest = c :: cs) : (ofLexer text l).scan? c
    = some ((Lexeme.scan l.rest).1, .ofLexer text (l.past (Lexeme.scan l.rest).2)) := by
  rw [scan?, startsNumber?_ofLexer h hr]
  simp only [Option.bind_eq_bind, Option.bind_some]
  cases hl : isLetter c with
  | true =>
      rw [if_pos rfl, scanWord?_ofLexer h, hr, Lexeme.scan_letter cs hl]
  | false =>
      rw [if_neg Bool.false_ne_true]
      cases hn : Number.starts l.rest with
      | true =>
          rw [if_pos rfl, scanNumber?_ofLexer h]
          rw [hr] at hn ⊢
          rw [Lexeme.scan_number hl hn]
      | false =>
          rw [if_neg Bool.false_ne_true]
          by_cases hq : Lexeme.IsQuote c
          · have hscan := Lexeme.scan_quote cs hq
            rw [hr, hscan]
            rcases hq with rfl | rfl | rfl
            · rw [if_pos rfl, scanQuoted?_ofLexer (by decide) (by decide) h hr]
              rfl
            · rw [if_neg (by decide), if_pos rfl, scanQuoted?_ofLexer (by decide) (by decide) h hr]
              rfl
            · rw [if_neg (by decide), if_neg (by decide), if_pos rfl, scanRaw?_ofLexer h hr]
              rfl
          · obtain ⟨hstring, hchar, hraw⟩ : c ≠ '"' ∧ c ≠ '\'' ∧ c ≠ '\x60' := by
              simpa only [Lexeme.IsQuote, not_or] using hq
            rw [if_neg hstring, if_neg hchar, if_neg hraw]
            rw [hr] at hn
            cases hread : Operator.read? l.rest with
            | some p =>
                rw [scanOperator?_of_read? h hr hread]
                rw [hr] at hread ⊢
                rw [Lexeme.scan_operator hl hn hq hread]
            | none =>
                rw [scanOperator?_of_none h hr hread]
                rw [hr] at hread ⊢
                rw [Lexeme.scan_illegal hl hn hq hread]

end

end Caret.Checked.Scanner
