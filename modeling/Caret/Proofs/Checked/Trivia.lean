/-
**Skipping what stands between tokens.**

A scanner skips blanks, and newlines as long as no statement ends there, with one loop.  It skips a
comment with another one: a line comment up to its newline, a block comment through its closing mark,
for which it looks at each place until the text has ended.  Whether comments hold the end of the line
is decided ahead of time and without moving, by searching the text for closing marks and cutting it
behind each of them.

Main definitions:

* `Caret.Checked.Scanner.skipWhitespace?`, `Caret.Checked.Scanner.skipComment?` — skipping blanks, and
  one comment;
* `Caret.Checked.findClose?` — the offset of the first closing mark;
* `Caret.Checked.commentTurn?`, `Caret.Checked.commentsEndLine?` — do the comments at the front of a
  text hold the end of the line?

Main results:

* `Caret.Checked.Scanner.skipWhitespace?_ofLexer`, `Caret.Checked.Scanner.skipComment?_ofLexer` — where
  skipping ends;
* `Caret.Checked.findClose?_append`, `Caret.Checked.findClose?_eq_none` — the search finds the first
  closing mark, at a boundary;
* `Caret.Checked.commentsEndLine?_eq` — **the search over comments ends, and it tells whether the gap
  ends the line**.
-/

import Caret.Proofs.Checked.Scanner

set_option relaxedAutoImplicit false
set_option autoImplicit false

namespace Caret.Checked

open Lexer (InText endsLine)

/-! ### The loops -/

namespace Scanner

/-- Skips blanks, and newlines too unless the end of the line would end a statement. -/
def skipWhitespace? (s : Scanner) : Option Scanner :=
  s.advanceWhile? fun c => isBlank c || (c == '\n' && !s.pending)

/-- What follows the opening mark of a block comment. -/
def skipBlock? (s : Scanner) : Option Scanner := do
  if s.atEnd then return s
  else if ['*', '/'].isPrefixOf (← s.ahead?) then (← s.advance?).advance?
  else (← s.advance?) |>.skipBlock?
partial_fixpoint

/-- Skips a comment. -/
def skipComment? (s : Scanner) : Option Scanner := do
  let s ← s.advance?
  let (isLine, s) ← s.advanceIf? '/'
  if isLine then s.advanceWhile? (· != '\n') else skipBlock? (← s.advance?)

/-- Does the next character, which is `c`, open a comment? -/
def opensComment? (c : Char) (s : Scanner) : Option Bool := do
  if c = '/' then return (← s.peekNth? 1).any fun d => d == '/' || d == '*'
  else return false

end Scanner

/-- The offset of the first closing mark of a block comment. -/
def findClose? : List Char → Option Nat
  | [] => none
  | c :: cs =>
    if ['*', '/'].isPrefixOf (c :: cs) then some 0 else (findClose? cs).map (c.utf8Size + ·)

/-- One turn of the search for the end of the line over the comments at the front of a text: it knows
whether the line ends, or it goes on with the text behind the first comment. -/
def commentTurn? (cs : List Char) : Option (Bool ⊕ List Char) := do
  if ['/', '/'].isPrefixOf cs then return .inl true
  else if ['/', '*'].isPrefixOf cs then
    let body := cs.drop 2
    match findClose? body with
    | none => return .inl true
    | some close =>
      let inside ← cutAt? close body
      if inside.taken.contains '\n' then return .inl true
      else
        let behind ← cutAt? (close + 2) body
        let rest := behind.rest.dropWhile isBlank
        if rest.isEmpty || rest.head? == some '\n' then return .inl true else return .inr rest
  else return .inl false

/-- A turn that does not know goes on with less text. -/
theorem length_lt_of_commentTurn? {cs rest : List Char} (h : commentTurn? cs = some (.inr rest)) :
    rest.length < cs.length := by
  unfold commentTurn? at h
  split at h
  · simp at h
  · split at h
    · next hopen =>
        have htwo : 2 ≤ cs.length := (List.isPrefixOf_iff_prefix.1 hopen).length_le
        cases hclose : findClose? (cs.drop 2) with
        | none => simp [hclose] at h
        | some close =>
            obtain ⟨inside, -, h⟩ := Option.bind_eq_some_iff.1 (by simpa [hclose] using h)
            split at h
            · simp at h
            · obtain ⟨behind, hbehind, h⟩ := Option.bind_eq_some_iff.1 h
              split at h
              · simp at h
              · obtain rfl : behind.rest.dropWhile isBlank = rest := by simpa using h
                have hwhole := congrArg List.length (cutAt?_eq_some_iff.1 hbehind).1
                have hblanks := (List.dropWhile_sublist isBlank (l := behind.rest)).length_le
                rw [Cut.whole, List.length_append, List.length_drop] at hwhole
                omega
    · simp at h

/-- Do the comments at the front of a text hold the end of its line? -/
def commentsEndLine? (cs : List Char) : Option Bool :=
  match _h : commentTurn? cs with
  | none => none
  | some (.inl ends) => some ends
  | some (.inr rest) => commentsEndLine? rest
termination_by cs.length
decreasing_by exact length_lt_of_commentTurn? _h

/-! ### Where skipping ends -/

/-- Where no closing mark stands in a text, none stands at the front when one follows the text. -/
theorem not_isPrefix_of_not_isInfix {c : Char} {body rest : List Char}
    (h : ¬ ['*', '/'] <:+: c :: body) : ¬ ['*', '/'] <+: c :: (body ++ '*' :: '/' :: rest) := by
  rintro ⟨ds, hds⟩
  cases body with
  | nil => simp at hds
  | cons d body =>
      obtain ⟨rfl, rfl, -⟩ : '*' = c ∧ '/' = d ∧ ds = body ++ '*' :: '/' :: rest := by
        simpa using hds
      exact h ⟨[], body, rfl⟩

namespace Scanner

variable {text : List Char} {l : Lexer} {c : Char} {cs rest : List Char}

theorem skipWhitespace?_ofLexer (h : InText text l) : (ofLexer text l).skipWhitespace?
    = some (.ofLexer text
        (l.past (.run (fun c => isBlank c || (c == '\n' && !l.pending)) l.rest))) :=
  advanceWhile?_ofLexer _ h

theorem skipBlock?_nil (h : InText text l) (hr : l.rest = []) :
    (ofLexer text l).skipBlock? = some (.ofLexer text l) := by
  rw [skipBlock?, atEnd_ofLexer h, hr]
  rfl

theorem skipBlock?_close (h : InText text l) (hr : l.rest = '*' :: '/' :: cs) :
    (ofLexer text l).skipBlock? = some (.ofLexer text (l.past ⟨['*', '/'], cs⟩)) := by
  have hin : InText text (l.past ⟨['*'], '/' :: cs⟩) := h.past_cons hr
  rw [skipBlock?, atEnd_ofLexer h, ahead?_ofLexer h, hr]
  simp only [List.isEmpty_cons, Bool.false_eq_true, if_false, Option.bind_eq_bind, Option.bind_some,
    List.isPrefixOf_cons_cons_self, List.isPrefixOf_nil_left, if_true, advance?_ofLexer h hr,
    advance?_ofLexer hin (Lexer.rest_past _ _)]
  rw [Lexer.past_past]
  rfl

theorem skipBlock?_cons (h : InText text l) (hr : l.rest = c :: cs)
    (hnot : ¬ ['*', '/'] <+: c :: cs) :
    (ofLexer text l).skipBlock? = (ofLexer text (l.past ⟨[c], cs⟩)).skipBlock? := by
  rw [← List.isPrefixOf_iff_prefix, Bool.not_eq_true] at hnot
  rw [skipBlock?, atEnd_ofLexer h, ahead?_ofLexer h, hr]
  simp only [List.isEmpty_cons, Bool.false_eq_true, if_false, Option.bind_eq_bind, Option.bind_some,
    hnot, advance?_ofLexer h hr]

/-- The loop over a block comment ends behind the first closing mark. -/
theorem skipBlock?_of_close {body : List Char} (h : InText text l)
    (hr : l.rest = body ++ '*' :: '/' :: rest) (hb : ¬ ['*', '/'] <:+: body) :
    (ofLexer text l).skipBlock? = some (.ofLexer text (l.past ⟨body ++ ['*', '/'], rest⟩)) := by
  induction body generalizing l with
  | nil => exact skipBlock?_close h hr
  | cons c body ih =>
      rw [skipBlock?_cons h hr (not_isPrefix_of_not_isInfix hb), ih (h.past_cons hr) rfl
        (Trivia.not_infix_of_cons hb), Lexer.past_past]
      rfl

/-- Without a closing mark the loop ends with the text. -/
theorem skipBlock?_of_unclosed (h : InText text l) (hb : ¬ ['*', '/'] <:+: l.rest) :
    (ofLexer text l).skipBlock? = some (.ofLexer text (l.past ⟨l.rest, []⟩)) := by
  induction hr : l.rest generalizing l with
  | nil =>
      rw [skipBlock?_nil h hr]
      exact congrArg (fun m => some (ofLexer text m)) (hr ▸ Lexer.past_nothing l).symm
  | cons c cs ih =>
      rw [hr] at hb
      rw [skipBlock?_cons h hr fun hpre => hb hpre.isInfix,
        ih (h.past_cons hr) (Trivia.not_infix_of_cons hb) rfl, Lexer.past_past]
      rfl

theorem skipComment?_line (h : InText text l) (hr : l.rest = '/' :: '/' :: cs) :
    (ofLexer text l).skipComment?
      = some (.ofLexer text (l.past ((Cut.run (· != '\n') cs).keep ['/', '/']))) := by
  have h₁ := h.past_cons hr
  have h₂ := h₁.past_cons (Lexer.rest_past _ _)
  rw [skipComment?, advance?_ofLexer h hr]
  simp only [Option.bind_eq_bind, Option.bind_some, advanceIf?_ofLexer h₁ (Lexer.rest_past _ _),
    if_true, advanceWhile?_ofLexer _ h₂]
  rw [Lexer.past_past, Lexer.past_past]
  rfl

theorem skipComment?_block (h : InText text l) (hr : l.rest = '/' :: '*' :: cs) :
    (ofLexer text l).skipComment? = (ofLexer text (l.past ⟨['/', '*'], cs⟩)).skipBlock? := by
  have h₁ := h.past_cons hr
  have hne : (l.past ⟨['/'], '*' :: cs⟩).rest.head? ≠ some '/' := by simp
  rw [skipComment?, advance?_ofLexer h hr]
  simp only [Option.bind_eq_bind, Option.bind_some, advanceIf?_ofLexer_ne h₁ hne,
    Bool.false_eq_true, if_false, advance?_ofLexer h₁ (Lexer.rest_past _ _)]
  rw [Lexer.past_past]
  rfl

/-- A comment is skipped whole. -/
theorem skipComment?_ofLexer {m : Comment} (h : InText text l) (hr : l.rest = m.text ++ rest)
    (hm : m.Proper (rest = []) rest) :
    (ofLexer text l).skipComment? = some (.ofLexer text (l.past ⟨m.text, rest⟩)) := by
  cases m with
  | line body =>
      have hrun : Cut.run (· != '\n') (body ++ rest) = ⟨body, rest⟩ := by
        refine Cut.run_append (fun c hc => ?_) fun c hc => ?_
        · simpa using fun hn : c = '\n' => hm.1 (hn ▸ hc)
        · rcases hm.2 with hnewline | ⟨rfl, -⟩
          · obtain rfl : '\n' = c := by simpa [hnewline] using hc
            rfl
          · simp at hc
      have hr' : l.rest = '/' :: '/' :: (body ++ rest) := hr
      rw [skipComment?_line h hr', hrun]
      rfl
  | block body =>
      have hr' : l.rest = '/' :: '*' :: (body ++ '*' :: '/' :: rest) := by
        rw [hr]
        simp [Comment.text]
      have hin : InText text (l.past ⟨['/', '*'], body ++ '*' :: '/' :: rest⟩) := h.past hr'.symm
      rw [skipComment?_block h hr', skipBlock?_of_close hin rfl hm, Lexer.past_past]
      rfl
  | unclosed body =>
      obtain ⟨hb, rfl, -⟩ := hm
      have hr' : l.rest = '/' :: '*' :: body := by
        rw [hr]
        simp [Comment.text]
      have hin : InText text (l.past ⟨['/', '*'], body⟩) := h.past hr'.symm
      rw [skipComment?_block h hr', skipBlock?_of_unclosed hin hb, Lexer.past_past]
      rfl

/-- Two characters are enough to see that a comment opens. -/
theorem opensComment?_ofLexer (h : InText text l) (hr : l.rest = c :: cs) :
    ∃ opens : Bool, (ofLexer text l).opensComment? c = some opens ∧
      (opens = true ↔ Trivia.Opens l.rest) := by
  rw [opensComment?, peekNth?_ofLexer h, hr, List.getElem?_cons_succ, ← List.head?_eq_getElem?]
  by_cases hc : c = '/'
  · subst hc
    refine ⟨cs.head?.any fun d => d == '/' || d == '*', rfl, ?_⟩
    cases cs with
    | nil => simp [Trivia.Opens]
    | cons d cs => simp [Trivia.Opens]
  · refine ⟨false, by rw [if_neg hc]; rfl, ?_⟩
    simp [Trivia.Opens, hc]

end Scanner

/-! ### Looking for the end of the line -/

/-- The first closing mark is found where it stands. -/
theorem findClose?_append {body : List Char} (rest : List Char) (hb : ¬ ['*', '/'] <:+: body) :
    findClose? (body ++ '*' :: '/' :: rest) = some (utf8Length body) := by
  induction body with
  | nil => rw [List.nil_append, findClose?, if_pos (by simp), utf8Length_nil]
  | cons c body ih =>
      have hnot : ¬ ['*', '/'].isPrefixOf (c :: (body ++ '*' :: '/' :: rest)) = true :=
        mt List.isPrefixOf_iff_prefix.1 (not_isPrefix_of_not_isInfix hb)
      rw [List.cons_append, findClose?, if_neg hnot, ih (Trivia.not_infix_of_cons hb)]
      rfl

theorem findClose?_eq_none {cs : List Char} (h : ¬ ['*', '/'] <:+: cs) : findClose? cs = none := by
  induction cs with
  | nil => rfl
  | cons c cs ih =>
      have hnot : ¬ ['*', '/'].isPrefixOf (c :: cs) = true :=
        mt List.isPrefixOf_iff_prefix.1 fun hpre => h hpre.isInfix
      rw [findClose?, if_neg hnot, ih (Trivia.not_infix_of_cons h)]
      rfl

theorem commentsEndLine?_of_inl {cs : List Char} {ends : Bool}
    (h : commentTurn? cs = some (.inl ends)) : commentsEndLine? cs = some ends := by
  rw [commentsEndLine?]
  split <;> simp_all

theorem commentsEndLine?_of_inr {cs rest : List Char} (h : commentTurn? cs = some (.inr rest)) :
    commentsEndLine? cs = commentsEndLine? rest := by
  rw [commentsEndLine?]
  split <;> simp_all

theorem commentsEndLine?_line (cs : List Char) :
    commentsEndLine? ('/' :: '/' :: cs) = some true := by
  refine commentsEndLine?_of_inl ?_
  rw [commentTurn?]
  rfl

theorem commentsEndLine?_unclosed {body : List Char} (h : ¬ ['*', '/'] <:+: body) :
    commentsEndLine? ('/' :: '*' :: body) = some true := by
  refine commentsEndLine?_of_inl ?_
  rw [commentTurn?, if_neg (by simp), if_pos (by simp)]
  simp only [List.drop_succ_cons, List.drop_zero, findClose?_eq_none h]
  rfl

/-- The turn at a block comment goes on behind it, unless the comment holds a newline or the line ends
right behind it. -/
theorem commentTurn?_block {body : List Char} (rest : List Char) (hb : ¬ ['*', '/'] <:+: body) :
    commentTurn? ('/' :: '*' :: (body ++ '*' :: '/' :: rest)) =
      if body.contains '\n' then some (.inl true)
      else if (rest.dropWhile isBlank).isEmpty || (rest.dropWhile isBlank).head? == some '\n' then
        some (.inl true)
      else some (.inr (rest.dropWhile isBlank)) := by
  have hinside : cutAt? (utf8Length body) (body ++ '*' :: '/' :: rest)
      = some ⟨body, '*' :: '/' :: rest⟩ := cutAt?_append body _
  have hbehind : cutAt? (utf8Length body + 2) (body ++ '*' :: '/' :: rest)
      = some ⟨body ++ ['*', '/'], rest⟩ := by
    have h := cutAt?_append (body ++ ['*', '/']) rest
    rwa [utf8Length_append, List.append_assoc] at h
  rw [commentTurn?, if_neg (by simp), if_pos (by simp)]
  simp only [List.drop_succ_cons, List.drop_zero, findClose?_append rest hb, Option.bind_eq_bind,
    Option.bind_some, hinside, hbehind]
  rfl

theorem commentsEndLine?_of_not_opens {cs : List Char} (h : ¬ Trivia.Opens cs) :
    commentsEndLine? cs = some false := by
  have hline : ¬ ['/', '/'].isPrefixOf cs = true := fun hpre => by
    obtain ⟨tail, rfl⟩ := List.isPrefixOf_iff_prefix.1 hpre
    exact h ⟨'/', tail, rfl, Or.inl rfl⟩
  have hblock : ¬ ['/', '*'].isPrefixOf cs = true := fun hpre => by
    obtain ⟨tail, rfl⟩ := List.isPrefixOf_iff_prefix.1 hpre
    exact h ⟨'*', tail, rfl, Or.inr rfl⟩
  refine commentsEndLine?_of_inl ?_
  rw [commentTurn?, if_neg hline, if_neg hblock]
  rfl

theorem endsLine_keep (front : List Char) (gap : Cut) :
    endsLine (gap.keep front) = (front.contains '\n' || endsLine gap) := by
  simp [endsLine, Bool.or_assoc]

/-- Blanks in front of a gap have no say. -/
theorem endsLine_cut_dropWhile (cs : List Char) :
    endsLine (Trivia.cut (cs.dropWhile isBlank)) = endsLine (Trivia.cut cs) := by
  have hblanks : ∀ c ∈ cs.takeWhile isBlank, isBlank c = true := Cut.forall_mem_run isBlank cs
  conv_rhs => rw [← List.takeWhile_append_dropWhile (p := isBlank) (l := cs)]
  rw [Lexer.cut_blanks _ hblanks, Lexer.endsLine_keep_blanks hblanks]

/-- What is left behind the end of a line comment ends the line. -/
theorem endsLine_cut_of_line {body rest : List Char} (h : (Comment.line body).Proper (rest = []) rest) :
    endsLine (Trivia.cut rest) = true := by
  rcases h.2 with hnewline | ⟨rfl, -⟩
  · obtain ⟨tail, rfl⟩ := List.head?_eq_some_iff.1 hnewline
    exact Lexer.endsLine_newline tail
  · simp [endsLine]

/-- A block comment ends the line if it holds a newline or what follows ends the line, provided the
search is right about any shorter text. -/
theorem commentsEndLine?_block_eq {body rest : List Char} (hb : ¬ ['*', '/'] <:+: body)
    (hsearch : ∀ c cs, (c :: cs).length ≤ rest.length → isSpace c = false →
      commentsEndLine? (c :: cs) = some (endsLine (Trivia.cut (c :: cs)))) :
    commentsEndLine? ('/' :: '*' :: (body ++ '*' :: '/' :: rest))
      = some (body.contains '\n' || endsLine (Trivia.cut rest)) := by
  have hturn := commentTurn?_block rest hb
  cases hbody : body.contains '\n' with
  | true => exact commentsEndLine?_of_inl (by rw [hturn, if_pos hbody, Bool.true_or])
  | false =>
      rw [hbody, if_neg Bool.false_ne_true] at hturn
      rw [Bool.false_or, ← endsLine_cut_dropWhile]
      have hblank : ∀ d ∈ (rest.dropWhile isBlank).head?, isBlank d = false :=
        Cut.head_rest_run isBlank rest
      have hshorter := (List.dropWhile_sublist isBlank (l := rest)).length_le
      cases hrest : rest.dropWhile isBlank with
      | nil =>
          rw [hrest, if_pos (by simp)] at hturn
          rw [commentsEndLine?_of_inl hturn]
          simp [endsLine]
      | cons d ds =>
          rw [hrest] at hblank hshorter hturn
          by_cases hd : d = '\n'
          · subst hd
            rw [if_pos (by simp)] at hturn
            rw [commentsEndLine?_of_inl hturn, Lexer.endsLine_newline]
          · have hspace : isSpace d = false := by simp [isSpace, hblank d rfl, hd]
            rw [if_neg (by simp [hd])] at hturn
            rw [commentsEndLine?_of_inr hturn, hsearch d ds hshorter hspace]

/-- The search over the comments in front of a text ends, and it tells whether the gap there ends the
line. -/
theorem commentsEndLine?_eq {c : Char} {cs : List Char} (hc : isSpace c = false) :
    commentsEndLine? (c :: cs) = some (endsLine (Trivia.cut (c :: cs))) := by
  -- on the length of the text, because the search jumps from comment to comment
  induction hn : cs.length using Nat.strongRecOn generalizing c cs with
  | ind n ih =>
      rcases Trivia.space_or_opens_or_stop c cs with hspace | hopens | hstop
      · exact absurd hspace (by simp [hc])
      · obtain ⟨m, rest, heq, hm⟩ := Trivia.exists_comment hopens
        have hlength := congrArg List.length heq
        have htwo := m.two_le_length_text
        simp only [List.length_cons, List.length_append] at hlength
        rw [heq, Trivia.cut_comment hm, endsLine_keep]
        cases m with
        | line body =>
            rw [endsLine_cut_of_line hm, Bool.or_true]
            exact commentsEndLine?_line _
        | unclosed body =>
            obtain ⟨hb, rfl, -⟩ := hm
            rw [List.append_nil]
            refine (commentsEndLine?_unclosed hb).trans ?_
            simp [endsLine]
        | block body =>
            have htext : (Comment.block body).text ++ rest
                = '/' :: '*' :: (body ++ '*' :: '/' :: rest) := by simp [Comment.text]
            have hcontains : (Comment.block body).text.contains '\n' = body.contains '\n' := by
              simp [Comment.text]
            rw [htext, hcontains]
            refine commentsEndLine?_block_eq hm fun d ds hle hd => ih ds.length ?_ hd rfl
            rw [List.length_cons] at hle
            omega
      · have hnot : ¬ Trivia.Opens (c :: cs) := fun hopens =>
          Trivia.taken_cut_ne_nil_of_opens hopens (by rw [hstop, Cut.taken_nothing])
        rw [commentsEndLine?_of_not_opens hnot, hstop]
        simp [endsLine]

end Caret.Checked
