/-
**Where the end of a line is marked.**

The lexer decides in several places whether the end of a line ends a statement: it looks at the token
it has just read, at the newline behind it, at comments that hold a newline or run up to one, and at
the end of the text.  Seen from the lexemes of a text there is one rule.  The last token that is not
illegal says whether a statement may end behind it, and the line ends if a newline stands anywhere in
front of the next token that is read, or if none is.  The mark is then the next lexeme, and it stands
at the first byte behind the token that is no blank.

Main definitions:

* `Caret.Kind.final` — the kinds of the tokens that a statement may end with;
* `Caret.pendingBehind` — may a statement end behind these tokens?
* `Caret.LineEndsBehind` — the line ends before the next token is read;
* `Caret.BlankAt` — a blank stands at an offset.

Main results:

* `Caret.Lexer.exists_behind` — behind each lexeme stands a lexer that reads the ones after it;
* `Caret.Lexer.head_lexemes_iff` — the first lexeme that a lexer makes is a mark exactly if the end of
  the line is pending and the line ends;
* `Caret.Lexer.Step.isLeast_start` — where a mark stands;
* `Caret.lineEnd_marks` — **the end of a line is marked exactly where it ends a statement**.
-/

import Caret.Proofs.Lossless

set_option relaxedAutoImplicit false
set_option autoImplicit false

namespace Caret

/-! ### What a statement may end with -/

/-- The kinds of the tokens that a statement may end with. -/
def Kind.final : List Kind :=
  [.ident, .int, .float, .imag, .char, .string,
   .keyword .break_, .keyword .continue_, .keyword .fallthrough, .keyword .return_,
   .op .increment, .op .decrement, .op .rparen, .op .rbrack, .op .rbrace]

theorem Kind.endsStatement_eq (k : Kind) : k.endsStatement = decide (k ∈ final) := by
  cases k with
  | op o => cases o <;> rfl
  | keyword k => cases k <;> rfl
  | _ => rfl

/-- May a statement end behind the token `t`, if `pending` says so of the token before it?  It may not
behind the mark of the end of a line, and an illegal token leaves the question as it was. -/
def Token.pendingBehind (pending : Bool) (t : Token) : Bool :=
  if t = .lineEnd then false
  else if t.kind = .illegal then pending
  else decide (t.kind ∈ Kind.final)

/-- May a statement end behind these tokens, the first of which is the first of the text? -/
def pendingBehind (tokens : List Token) : Bool := tokens.foldl Token.pendingBehind false

/-! ### The end of a line -/

/-- Behind the offset `stop` the line ends before the first of the lexemes `ts` that is no mark
itself, or there is no such lexeme. -/
def LineEndsBehind (text : List Char) (stop : Nat) (ts : List Lexeme) : Prop :=
  ∀ u ∈ ts.find? (fun u => u.token != .lineEnd), '\n' ∈ slice text stop u.start.offset

/-- A blank stands at the offset `n`. -/
def BlankAt (text : List Char) (n : Nat) : Prop :=
  ∃ front c back, text = front ++ c :: back ∧ utf8Length front = n ∧ isBlank c = true

variable {text : List Char}

theorem lineEndsBehind_nil (stop : Nat) : LineEndsBehind text stop [] := by
  simp [LineEndsBehind]

/-- A mark in front does not count. -/
theorem lineEndsBehind_cons_mark {t : Lexeme} (stop : Nat) (ts : List Lexeme)
    (h : t.token = .lineEnd) : LineEndsBehind text stop (t :: ts) ↔ LineEndsBehind text stop ts := by
  simp [LineEndsBehind, h]

theorem lineEndsBehind_cons_token {t : Lexeme} (stop : Nat) (ts : List Lexeme)
    (h : t.token ≠ .lineEnd) :
    LineEndsBehind text stop (t :: ts) ↔ '\n' ∈ slice text stop t.start.offset := by
  simp [LineEndsBehind, h]

/-- Behind an earlier offset the line ends as well. -/
theorem LineEndsBehind.of_le {start stop : Nat} {ts : List Lexeme} (h : LineEndsBehind text stop ts)
    (hle : start ≤ stop) (hts : ∀ u ∈ ts, stop ≤ u.start.offset) : LineEndsBehind text start ts := by
  intro u hu
  rw [← slice_append_slice hle (hts u (List.mem_of_find?_eq_some hu))]
  exact List.mem_append_right _ (h u hu)

theorem utf8Size_of_isBlank {c : Char} (h : isBlank c = true) : c.utf8Size = 1 := by
  have hc : c = ' ' ∨ c = '\t' ∨ c = '\r' := by simpa [isBlank, or_assoc] using h
  rcases hc with rfl | rfl | rfl <;> decide

/-- Every offset among blanks is one of them. -/
theorem blankAt_of_lt {front blanks rest : List Char} {n : Nat} (hb : ∀ c ∈ blanks, isBlank c = true)
    (hle : utf8Length front ≤ n) (hlt : n < utf8Length front + utf8Length blanks) :
    BlankAt (front ++ (blanks ++ rest)) n := by
  induction blanks generalizing front with
  | nil =>
      rw [utf8Length_nil] at hlt
      omega
  | cons c blanks ih =>
      have hc : isBlank c = true := hb c List.mem_cons_self
      have hsize := utf8Size_of_isBlank hc
      rw [utf8Length_cons, hsize] at hlt
      by_cases hn : utf8Length front = n
      · exact ⟨front, c, blanks ++ rest, rfl, hn, hc⟩
      · have hlen : utf8Length (front ++ [c]) = utf8Length front + 1 := by simp [hsize]
        have := @ih (front ++ [c]) (fun d hd => hb d (List.mem_cons_of_mem c hd))
          (by omega) (by omega)
        simpa using this

/-- Where something else than a blank starts, or nothing, there is no blank. -/
theorem not_blankAt {front rest : List Char} (h : ∀ c ∈ rest.head?, isBlank c = false) :
    ¬ BlankAt (front ++ rest) (utf8Length front) := by
  rintro ⟨left, c, back, htext, hlen, hc⟩
  have hleft : left = front := by
    have := takeBytes_append left (c :: back)
    rw [← htext, hlen, takeBytes_append] at this
    exact this.symm
  rw [hleft] at htext
  have hrest := List.append_cancel_left htext
  have := h c (by rw [hrest]; rfl)
  rw [hc] at this
  exact absurd this (by decide)

namespace Lexer

/-! ### One move -/

variable {l m : Lexer} {t : Lexeme}

/-- What is pending behind a move is told by its token. -/
theorem Step.pending_eq (h : Step l t m) : m.pending = t.token.pendingBehind l.pending := by
  cases h with
  | newline => rfl
  | lineEnd => rfl
  | @token gap span rest kind _ _ _ hs _ hscan =>
      rw [Token.pendingBehind, if_neg (token_ne_lineEnd hs hscan), ← Kind.endsStatement_eq]
      rfl

/-- Only where the end of a line is pending it is marked. -/
theorem Step.pending_of_mark (h : Step l t m) (ht : t.token = .lineEnd) : l.pending = true := by
  cases h with
  | newline hp => exact hp
  | lineEnd hp => exact hp
  | token _ _ _ hs _ hscan => exact absurd ht (token_ne_lineEnd hs hscan)

/-- Of a text from the place of a lexer on, a later slice holds an earlier one. -/
theorem mem_slice_of_mem {stop : Nat} {gap rest : List Char} {c : Char} (hl : InText text l)
    (hr : l.rest = gap ++ rest) (hc : c ∈ gap) (hle : l.position.offset + utf8Length gap ≤ stop) :
    c ∈ slice text l.position.offset stop := by
  have hsplit := hl.slices (show l.rest = gap ++ ([] ++ rest) from hr)
  rw [← slice_append_slice (Nat.le_add_right _ _) hle, hsplit.2.2.1]
  exact List.mem_append_left _ hc

/-- With nothing pending, the line ends before the next token if the gap in front of it ends the
line. -/
theorem lineEndsBehind_of_endsLine (hl : InText text l) (hp : l.pending = false)
    (he : endsLine (Trivia.cut l.rest) = true) :
    LineEndsBehind text l.position.offset l.lexemes := by
  rcases l.done_or_step with hdone | ⟨t, m, h⟩
  · rw [lexemes_of_done hdone]
    exact lineEndsBehind_nil _
  · rw [lexemes_of_step h]
    cases h with
    | newline hpend => rw [hp] at hpend; exact absurd hpend (by decide)
    | lineEnd hpend => rw [hp] at hpend; exact absurd hpend (by decide)
    | @token gap span rest kind hr hg hn hs hstop hscan =>
        rw [hr, cut_of_token hg hstop] at he
        have hnl : '\n' ∈ gap := by simpa [endsLine, hs] using he
        rw [lineEndsBehind_cons_token _ _ (token_ne_lineEnd hs hscan)]
        exact mem_slice_of_mem hl hr hnl (by rw [Position.offset_after])

/-- **The first lexeme that a lexer makes is a mark** exactly if the end of the line is pending and the
line ends before the next token is read. -/
theorem head_lexemes_iff (hl : InText text l) :
    (∃ u ∈ l.lexemes.head?, u.token = .lineEnd) ↔
      l.pending = true ∧ LineEndsBehind text l.position.offset l.lexemes := by
  rcases l.done_or_step with hdone | ⟨t, m, h⟩
  · simp [lexemes_of_done hdone, hdone.pending]
  · have hm := hl.of_step h
    rw [lexemes_of_step h]
    cases h with
    | @newline blanks rest hp hb hr =>
        -- whatever is read later starts behind the newline
        refine iff_of_true ⟨_, rfl, rfl⟩ ⟨hp, ?_⟩
        rw [lineEndsBehind_cons_mark _ _ rfl]
        intro u hu
        have hle := offset_le_of_mem _ u (List.mem_of_find?_eq_some hu)
        have hr' : l.rest = (blanks ++ ['\n']) ++ rest := by simp [hr]
        refine mem_slice_of_mem hl hr' (by simp) ?_
        simpa [Nat.add_assoc] using hle
    | @lineEnd blanks rest hp hb hr hat =>
        refine iff_of_true ⟨_, rfl, rfl⟩ ⟨hp, ?_⟩
        rw [lineEndsBehind_cons_mark _ _ rfl]
        have hbehind := lineEndsBehind_of_endsLine hm rfl (endsLine_of_endsLineAt hat)
        exact hbehind.of_le (by simp) (offset_le_of_mem _)
    | @token gap span rest kind hr hg hn hs hstop hscan =>
        have hne := token_ne_lineEnd hs hscan
        have hslice : slice text l.position.offset (l.position.after gap).offset = gap := by
          rw [Position.offset_after]
          exact (hl.slices hr).2.2.1
        refine iff_of_false ?_ ?_
        · rintro ⟨u, hu, hmark⟩
          obtain rfl := Option.some.inj hu
          exact hne hmark
        · rintro ⟨hp, hends⟩
          rw [lineEndsBehind_cons_token _ _ hne, hslice] at hends
          exact hn hp hends

/-- A mark stands behind the blanks in front of it. -/
theorem Step.isLeast_start (hl : InText text l) (h : Step l t m) (ht : t.token = .lineEnd) :
    IsLeast {n | l.position.offset ≤ n ∧ ¬ BlankAt text n} t.start.offset := by
  -- both moves that make a mark pass over blanks and stop in front of something else
  have key : ∀ blanks rest, l.rest = blanks ++ rest → (∀ c ∈ blanks, isBlank c = true) →
      (∀ c ∈ rest.head?, isBlank c = false) → t.start = l.position.after blanks →
      IsLeast {n | l.position.offset ≤ n ∧ ¬ BlankAt text n} t.start.offset := by
    intro blanks rest hr hb hhead hstart
    obtain ⟨front, htext, hoff⟩ := hl
    rw [hr] at htext
    rw [hstart, Position.offset_after, hoff]
    constructor
    · have := @not_blankAt (front ++ blanks) rest hhead
      rw [utf8Length_append, List.append_assoc, ← htext] at this
      exact ⟨Nat.le_add_right _ _, this⟩
    · rintro n ⟨hle, hn⟩
      by_contra hlt
      rw [htext] at hn
      exact hn (blankAt_of_lt hb hle (by omega))
  cases h with
  | @newline blanks rest _ hb hr =>
      refine key blanks _ hr hb ?_ rfl
      intro c hc
      obtain rfl := Option.some.inj hc
      exact isBlank_newline
  | @lineEnd blanks rest _ hb hr hat =>
      refine key blanks rest hr hb ?_ rfl
      intro c hc
      rcases hat with rfl | ⟨⟨x, tail, rfl, -⟩, -⟩
      · simp at hc
      · obtain rfl := Option.some.inj hc
        decide
  | @token gap span rest kind _ _ _ hs _ hscan => exact absurd ht (token_ne_lineEnd hs hscan)

/-! ### All lexemes -/

/-- **Behind each lexeme stands a lexer** that reads the ones after it; what is pending there is told by
the tokens so far. -/
theorem exists_behind {before after : List Lexeme} (hl : InText text l)
    (h : l.lexemes = before ++ t :: after) :
    ∃ m, InText text m ∧ m.position = t.stop ∧ m.lexemes = after ∧
      m.pending = ((before ++ [t]).map (·.token)).foldl Token.pendingBehind l.pending := by
  induction l using step_induction generalizing before with
  | done l hdone =>
      rw [lexemes_of_done hdone] at h
      simp at h
  | step l u m hstep ih =>
      rw [lexemes_of_step hstep] at h
      have hm := hl.of_step hstep
      cases before with
      | nil =>
          obtain ⟨rfl, hafter⟩ := List.cons.inj h
          obtain ⟨gap, span, -, -, -, -, hpos, -⟩ := hstep.parts
          exact ⟨m, hm, hpos, hafter, hstep.pending_eq⟩
      | cons b before =>
          obtain ⟨rfl, hafter⟩ := List.cons.inj h
          obtain ⟨k, hk, hpos, hlex, hpend⟩ := ih hm hafter
          refine ⟨k, hk, hpos, hlex, ?_⟩
          rw [hpend, hstep.pending_eq]
          rfl

end Lexer

/-- **The end of a line is marked exactly where it ends a statement.**  Behind a token the next lexeme is
a mark if and only if a statement may end there and the line ends before the next token is read.  A
mark stands at the first byte behind the token in front of it that is no blank, and no text starts
with a mark. -/
theorem lineEnd_marks (source : String) :
    let text := source.toList
    let ts := Lexeme.ofText text
    (∀ before t after, ts = before ++ t :: after →
      ((∃ u ∈ after.head?, u.token = .lineEnd) ↔
        pendingBehind ((before ++ [t]).map (·.token)) = true ∧
          LineEndsBehind text t.stop.offset after)) ∧
    (∀ before t u after, ts = before ++ t :: u :: after → u.token = .lineEnd →
      IsLeast {n | t.stop.offset ≤ n ∧ ¬ BlankAt text n} u.start.offset) ∧
    ∀ u ∈ ts.head?, u.token ≠ .lineEnd := by
  intro text ts
  have hl := Lexer.inText_ofText text
  have hpend := Lexer.pending_ofText text
  refine ⟨?_, ?_, ?_⟩
  · intro before t after h
    obtain ⟨m, hm, hpos, rfl, hp⟩ := Lexer.exists_behind hl h
    rw [pendingBehind, ← hpend, ← hp, ← hpos]
    exact Lexer.head_lexemes_iff hm
  · intro before t u after h hu
    obtain ⟨m, hm, hpos, hlex, -⟩ := Lexer.exists_behind hl h
    rw [← hpos]
    obtain ⟨k, hstep, -⟩ := Lexer.exists_step_of_cons hlex
    exact hstep.isLeast_start hm hu
  · intro u hu hmark
    have := (Lexer.head_lexemes_iff hl).1 ⟨u, hu, hmark⟩
    rw [hpend] at this
    exact absurd this.1 (by decide)

end Caret
