/-
**Starting over behind a newline.**

A newline belongs to no lexeme but a raw string, and to no comment but a block comment.  Where all of
these are closed in front of a newline, the lexer reads the newline in a gap or as the mark of the
end of a line, whatever follows it; and behind it no end of a line is pending any more.  So what
stands behind a newline is read like a text of its own, and only its places tell what stands in front.

Main definitions:

* `Caret.Lexeme.shift`, `Caret.Lexer.shift` — a lexeme, and a lexer, with more text in front;
* `Caret.Lexer.ClosesAll` — the raw strings and block comments that a lexer has left are closed.

Main results:

* `Caret.Lexeme.scan_append_newline` — a newline ends every lexeme, except a raw string that is open;
* `Caret.Trivia.gap_append_newline` — it ends every comment, except a block comment that is open;
* `Caret.Lexer.lexemes_shift` — text in front moves the places of the lexemes and nothing else;
* `Caret.Lexer.Step.extend_newline`, `Caret.Lexer.exists_lexemes_newline` — move by move, what stands
  behind a newline does not matter in front of it;
* `Caret.lexemes_restart` — **behind a newline the lexer starts over**.
-/

import Caret.Proofs.Recount
import Caret.Proofs.Separator
import Caret.Proofs.Truncate

set_option relaxedAutoImplicit false
set_option autoImplicit false

namespace Caret

/-! ### In front of a newline -/

/-- An interpreted literal ends in front of a newline, if not before. -/
theorem Quoted.cutInterpreted_append_newline (quote : Char) (cs more : List Char) :
    cutInterpreted quote (cs ++ '\n' :: more) = (cutInterpreted quote cs).extend ('\n' :: more) := by
  fun_induction cutInterpreted quote cs with
  | case1 => exact cutInterpreted_newline quote more
  | case2 => exact cutInterpreted_newline quote _
  | case3 c hc =>
      -- a backslash does not take the newline with it
      rw [List.singleton_append, cutInterpreted, if_neg hc, cutInterpreted_newline]
      split <;> simp [Cut.extend, Cut.keep, Cut.nothing]
  | case4 d cs => exact cutInterpreted_newline quote _
  | case5 d cs hc => simp [cutInterpreted, hc, Cut.extend]
  | case6 c d cs hc hquote hesc ih =>
      rw [List.cons_append, List.cons_append, cutInterpreted, if_neg hc, if_neg hquote, if_pos hesc, ih,
        Cut.extend_keep]
  | case7 c d cs hc hquote hesc ih =>
      rw [List.cons_append] at ih
      rw [List.cons_append, List.cons_append, cutInterpreted, if_neg hc, if_neg hquote, if_neg hesc, ih,
        Cut.extend_keep]

/-- **A newline ends every lexeme**, except a raw string that is open. -/
theorem Lexeme.scan_append_newline {text rest : List Char} {kind : Kind} (more : List Char)
    (ht : text ≠ []) (h : scan (text ++ rest) = (kind, ⟨text, rest⟩))
    (hraw : text.head? = some '\x60' → Quoted.Closed text) :
    scan (text ++ (rest ++ '\n' :: more)) = (kind, ⟨text, rest ++ '\n' :: more⟩) := by
  obtain ⟨c, tail, rfl⟩ := List.exists_cons_of_ne_nil ht
  have happend : c :: tail ++ (rest ++ '\n' :: more) = c :: (tail ++ rest ++ '\n' :: more) := by simp
  rw [List.cons_append] at h
  by_cases hq : IsQuote c
  · by_cases hc : c = '\x60'
    · -- a closed literal is read whole, whatever follows it
      have hclosed := hraw (congrArg some hc)
      have hshort := scan_of_closed hclosed rest
      rw [List.cons_append, h] at hshort
      rw [(Prod.mk.inj hshort).1]
      exact scan_of_closed hclosed _
    · have hnewline := Quoted.cutInterpreted_append_newline c (tail ++ rest) more
      rw [scan_quote _ hq, Quoted.cut, if_neg hc] at h
      rw [happend, scan_quote _ hq, Quoted.cut, if_neg hc, hnewline, ← Cut.extend_keep,
        (Prod.mk.inj h).1, (Prod.mk.inj h).2]
      rfl
  · have hscan := scan_append_space (tail ++ rest) hq (startsWithSpace_newline more)
    rw [List.cons_append, h] at hscan
    rw [happend, hscan]
    rfl

/-- A comment that is ended behind a gap, but not by a newline, is ended in the gap. -/
theorem Comment.Proper.of_append {p : Prop} {m : Comment} {c : Char} {gap back : List Char}
    (h : m.Proper p (gap ++ c :: back)) (hc : c ≠ '\n') : m.Proper False gap := by
  cases m with
  | line body =>
      obtain ⟨hbody, hnewline | ⟨hnil, -⟩⟩ := h
      · cases gap with
        | nil => exact absurd (Option.some.inj hnewline) hc
        | cons d gap => exact ⟨hbody, Or.inl hnewline⟩
      · exact absurd hnil (by simp)
  | block body => exact h
  | unclosed body => exact absurd h.2.1 (by simp)

/-- **A newline ends every comment** at the end of a gap, except a block comment that is open. -/
theorem Trivia.gap_append_newline {cs : List Char} (h : Gap True cs) :
    Gap False (cs ++ ['\n']) ∨ ∃ front body, cs = front ++ (Comment.unclosed body).text ∧
      Gap False front ∧ ¬ ['*', '/'] <:+: body := by
  induction h with
  | nil => exact Or.inl (Gap.space (by decide) Gap.nil)
  | @space c cs hc _ ih =>
      rcases ih with hgap | ⟨front, body, rfl, hfront, hbody⟩
      · exact Or.inl (Gap.space hc hgap)
      · exact Or.inr ⟨c :: front, body, rfl, Gap.space hc hfront, hbody⟩
  | @comment m cs hm _ ih =>
      rcases ih with hgap | ⟨front, body, rfl, hfront, hbody⟩
      · rw [List.append_assoc]
        cases m with
        | line body =>
            obtain ⟨hbody, hend⟩ := hm
            have hnewline : (cs ++ ['\n']).head? = some '\n' := by
              rcases hend with hhead | ⟨rfl, -⟩
              · rw [List.head?_append, hhead]
                rfl
              · rfl
            exact Or.inl (Gap.comment ⟨hbody, Or.inl hnewline⟩ hgap)
        | block body => exact Or.inl (Gap.comment hm hgap)
        | unclosed body =>
            obtain ⟨hbody, rfl, -⟩ := hm
            exact Or.inr ⟨[], body, List.append_nil _, Gap.nil, hbody⟩
      · -- behind this comment stands another, so a newline ends this one, or its closing mark
        exact Or.inr ⟨m.text ++ front, body, (List.append_assoc ..).symm,
          Gap.comment (hm.of_append (by decide)) hfront, hbody⟩

/-! ### Text in front -/

/-- A lexeme that has so many more lines and bytes in front of it. -/
def Lexeme.shift (lines bytes : Nat) (t : Lexeme) : Lexeme :=
  ⟨t.token, t.start.shift lines bytes, t.stop.shift lines bytes⟩

namespace Lexer

/-- A lexer that has so many more lines and bytes in front of it. -/
def shift (lines bytes : Nat) (l : Lexer) : Lexer :=
  ⟨l.rest, l.position.shift lines bytes, l.pending⟩

theorem Done.shift {l : Lexer} (lines bytes : Nat) (h : Done l) : Done (l.shift lines bytes) :=
  ⟨h.pending, h.gap⟩

theorem Step.shift {l m : Lexer} {t : Lexeme} (lines bytes : Nat) (h : Step l t m) :
    Step (l.shift lines bytes) (t.shift lines bytes) (m.shift lines bytes) := by
  cases h with
  | @newline blanks rest hp hb hr =>
      have := @Step.newline (l.shift lines bytes) blanks rest hp hb hr
      simpa only [Lexer.shift, Lexeme.shift, Position.shift_after, Position.shift_advance] using this
  | @lineEnd blanks rest hp hb hr hat =>
      have := @Step.lineEnd (l.shift lines bytes) blanks rest hp hb hr hat
      simpa only [Lexer.shift, Lexeme.shift, Position.shift_after] using this
  | @token gap span rest kind hr hg hn hs hstop hscan =>
      have := @Step.token (l.shift lines bytes) gap span rest kind hr hg hn hs hstop hscan
      simpa only [Lexer.shift, Lexeme.shift, Position.shift_after] using this

/-- Text in front moves the places of the lexemes and nothing else. -/
theorem lexemes_shift (lines bytes : Nat) (l : Lexer) :
    (l.shift lines bytes).lexemes = l.lexemes.map (·.shift lines bytes) := by
  induction l using step_induction with
  | done l hdone => rw [lexemes_of_done hdone, lexemes_of_done (hdone.shift lines bytes), List.map_nil]
  | step l t m h ih =>
      rw [lexemes_of_step h, lexemes_of_step (h.shift lines bytes), ih, List.map_cons]

/-! ### What is closed -/

/-- The raw strings that a lexer has left are closed, and so are the block comments that it skips. -/
structure ClosesAll (text : List Char) (l : Lexer) : Prop where
  inText : InText text l
  raw : ∀ t ∈ l.lexemes, t.token.text.toList.head? = some '\x60' → Quoted.Closed t.token.text.toList
  block : ∀ offset body, ¬ SkipsComment text l.position.offset l.lexemes offset (.unclosed body)

variable {text : List Char} {k m : Lexer} {t : Lexeme}

theorem ClosesAll.of_step (hk : ClosesAll text k) (h : Step k t m) : ClosesAll text m := by
  have hlex := lexemes_of_step h
  obtain ⟨gap, span, -, -, -, -, hpos, -⟩ := h.parts
  refine ⟨hk.inText.of_step h, fun u hu => ?_, fun offset body hskip => ?_⟩
  · exact hk.raw u (by rw [hlex]; exact List.mem_cons_of_mem t hu)
  · refine hk.block offset body ?_
    rw [hlex]
    rw [hpos] at hskip
    exact hskip.cons

/-- Where nothing but a gap is left, a newline ends the gap. -/
theorem ClosesAll.gap_append_newline (hk : ClosesAll text k) (h : Done k) :
    Gap False (k.rest ++ ['\n']) := by
  refine (Trivia.gap_append_newline h.gap).resolve_right ?_
  rintro ⟨front, body, hrest, hfront, hbody⟩
  refine hk.block (k.position.offset + utf8Length front) body ?_
  rw [lexemes_of_done h]
  refine ⟨_, List.mem_singleton_self _, front, [], ?_, hfront, ⟨hbody, rfl, rfl⟩, Gap.nil, rfl⟩
  rw [hk.inText.slice_rest, hrest, List.append_nil]

/-! ### What stands behind a newline -/

/-- With no end of a line pending, a gap is skipped. -/
theorem lexemes_over_gap {l : Lexer} {gap rest : List Char} (hp : l.pending = false)
    (hr : l.rest = gap ++ rest) (hg : Gap False gap) :
    l.lexemes = lexemes ⟨rest, l.position.after gap, false⟩ := by
  have hcut : Trivia.cut l.rest = (Trivia.cut rest).keep gap := by
    rw [hr, Trivia.cut_gap_append rest hg]
  have hnext : (l.past ⟨gap, rest⟩).next = l.next :=
    next_over_gap hcut (by rw [hp, Bool.false_and])
  rw [← lexemes_congr hnext, past, hp]

/-- A move does not change where the text leads, whatever follows it. -/
theorem Step.after_rest (h : Step k t m) (more : List Char) :
    m.position.after (m.rest ++ more) = k.position.after (k.rest ++ more) := by
  obtain ⟨gap, span, hrest, -, hstart, hstop, hpos, -⟩ := h.parts
  rw [hpos, hstop, hstart, hrest, ← Position.after_append, ← Position.after_append]
  simp

/-- A line that ends in front of a newline, where the text ends, ends there in a longer text. -/
theorem endsLine_append_newline {cs more : List Char} (he : endsLine (Trivia.cut cs) = true)
    (hgap : (Trivia.cut cs).rest = [] → Gap False (cs ++ ['\n'])) :
    endsLine (Trivia.cut (cs ++ '\n' :: more)) = true := by
  by_contra hno
  have hrest := rest_eq_nil_of_endsLine he (Bool.eq_false_of_not_eq_true hno)
  have hcut := Trivia.cut_gap_append more (hgap hrest)
  rw [List.append_assoc, List.singleton_append] at hcut
  rw [hcut, Checked.endsLine_keep] at hno
  simp at hno

/-- **Move by move, what stands behind a newline does not matter.**  A move in front of the newline is
made again with more text behind it, or it marks the end of the text and the newline is marked
instead. -/
theorem Step.extend_newline (hk : ClosesAll text k) (h : Step k t m) :
    (∀ more, Step (k.extend ('\n' :: more)) t (m.extend ('\n' :: more))) ∨
      ∃ u, ∀ more, Step (k.extend ('\n' :: more)) u
        ⟨more, k.position.after (k.rest ++ ['\n']), false⟩ := by
  have hm := hk.of_step h
  have hlex := lexemes_of_step h
  cases h with
  | @newline blanks rest hp hb hr =>
      refine Or.inl fun more => Step.newline hp hb ?_
      rw [extend, hr, List.append_assoc]
      rfl
  | @lineEnd blanks rest hp hb hr hat =>
      rcases hat with rfl | ⟨⟨x, tail, rfl, hx⟩, hend⟩
      · -- the text ends behind the blanks, where the newline now stands
        rw [List.append_nil] at hr
        refine Or.inr ⟨⟨.lineEnd, k.position.after blanks, (k.position.after blanks).advance '\n'⟩,
          fun more => ?_⟩
        rw [Position.after_append, hr]
        exact Step.newline hp hb (by rw [extend, hr])
      · refine Or.inl fun more => Step.lineEnd hp hb ?_ (Or.inr ⟨⟨x, tail ++ '\n' :: more, rfl, hx⟩, ?_⟩)
        · rw [extend, hr, List.append_assoc]
        · exact endsLine_append_newline hend fun hrest =>
            hm.gap_append_newline ⟨rfl, Trivia.gap_of_rest_eq_nil hrest⟩
  | @token gap span rest kind hr hg hn hs hstop hscan =>
      have hraw : span.head? = some '\x60' → Quoted.Closed span := by
        have := hk.raw _ (by rw [hlex]; exact List.mem_cons_self)
        simpa only [String.toList_ofList] using this
      refine Or.inl fun more => ?_
      have hstop' : Trivia.cut (span ++ (rest ++ '\n' :: more))
          = .nothing (span ++ (rest ++ '\n' :: more)) := by
        rw [← List.append_nil (span ++ rest)] at hstop
        rw [← List.append_assoc]
        exact Trivia.cut_congr_rest (by simp [hs]) hstop (startsWithSpace_newline more)
      refine Step.token ?_ hg hn hs hstop' (Lexeme.scan_append_newline more hs hscan hraw)
      rw [extend, hr, List.append_assoc, List.append_assoc]

/-- **What stands behind a newline does not matter in front of it**, and is read by a lexer of its
own. -/
theorem exists_lexemes_newline (k : Lexer) (hk : ClosesAll text k) :
    ∃ ts, ∀ more, (k.extend ('\n' :: more)).lexemes
      = ts ++ lexemes ⟨more, k.position.after (k.rest ++ ['\n']), false⟩ := by
  induction k using step_induction with
  | done k hdone =>
      refine ⟨[], fun more => lexemes_over_gap hdone.pending ?_ (hk.gap_append_newline hdone)⟩
      rw [extend, List.append_assoc]
      rfl
  | step k t m h ih =>
      obtain ⟨ts, hts⟩ := ih (hk.of_step h)
      rcases h.extend_newline hk with hsame | ⟨u, hmark⟩
      · refine ⟨t :: ts, fun more => ?_⟩
        rw [lexemes_of_step (hsame more), hts, h.after_rest, List.cons_append]
      · exact ⟨[u], fun more => lexemes_of_step (hmark more)⟩

theorem ofText_append_newline (front more : List Char) :
    ofText (front ++ '\n' :: more) = (ofText front).extend ('\n' :: more) := by
  cases front with
  | nil => exact ofText_of_head fun h => absurd (Option.some.inj h) (by decide)
  | cons c front => exact ofText_append _ (List.cons_ne_nil c front)

end Lexer

/-! ### Starting over -/

theorem newline_not_mem_byteOrderMark (text : List Char) : '\n' ∉ byteOrderMark text := by
  cases text with
  | nil => simp [byteOrderMark]
  | cons c cs =>
      rw [byteOrderMark]
      split
      · next hc => simp [hc]
      · simp

/-- The place behind a text and a newline is the beginning of a text, moved on by as many lines and
bytes. -/
theorem position_after_newline (front : List Char) :
    (Lexer.ofText front).position.after ((Lexer.ofText front).rest ++ ['\n'])
      = Position.start.shift ((front ++ ['\n']).count '\n') (utf8Length front + 1) := by
  have hfront := byteOrderMark_append_unmarked front
  have hplace : (Lexer.ofText front).position.after ((Lexer.ofText front).rest ++ ['\n'])
      = (Position.start.after (unmarked front ++ ['\n'])).shift 0 (utf8Length (byteOrderMark front)) := by
    rw [rest_ofText, position_ofText, Position.shift_after]
  have hlines : (unmarked front ++ ['\n']).count '\n' = (front ++ ['\n']).count '\n' := by
    have hcount := congrArg (List.count '\n') hfront
    rw [List.count_append, List.count_eq_zero_of_not_mem (newline_not_mem_byteOrderMark front),
      Nat.zero_add] at hcount
    rw [List.count_append, List.count_append, hcount]
  have hbytes : utf8Length (unmarked front ++ ['\n']) + utf8Length (byteOrderMark front)
      = utf8Length front + 1 := by
    conv_rhs => rw [← hfront]
    have hsize : ('\n').utf8Size = 1 := by decide
    simp only [utf8Length_append, utf8Length_cons, utf8Length_nil, hsize]
    omega
  have hcolumn : (Position.start.after (unmarked front ++ ['\n'])).column = 1 :=
    Position.column_after_above (Or.inr ⟨_, rfl⟩)
  rw [hplace, Position.shift, Position.line_after, hlines, hcolumn, Position.offset_after,
    Nat.add_assoc, Nat.add_assoc, hbytes, Nat.add_zero]
  rfl

/-- **Behind a newline the lexer starts over.**  If the raw strings of a text are closed, and the block
comments that are skipped in it, then the lexemes of the text, a newline and another text are those
of the text and the newline, and those of the other text, moved on by as many lines and bytes as
stand in front of it.  Columns are not moved. -/
theorem lexemes_restart (front back : List Char)
    (hraw : ∀ t ∈ Lexeme.ofText front, t.token.text.toList.head? = some '\x60' →
      Quoted.Closed t.token.text.toList)
    (hblock : ∀ offset body, ¬ SkipsComment front (utf8Length (byteOrderMark front))
      (Lexeme.ofText front) offset (.unclosed body))
    (hmark : back.head? ≠ some '\uFEFF') :
    Lexeme.ofText (front ++ '\n' :: back) = Lexeme.ofText (front ++ ['\n']) ++
      (Lexeme.ofText back).map
        (·.shift ((front ++ ['\n']).count '\n') (utf8Length front + 1)) := by
  have hk : Lexer.ClosesAll front (Lexer.ofText front) := by
    refine ⟨Lexer.inText_ofText front, hraw, ?_⟩
    rw [offset_ofText]
    exact hblock
  obtain ⟨ts, hts⟩ := Lexer.exists_lexemes_newline _ hk
  rw [position_after_newline] at hts
  have hfront : Lexeme.ofText (front ++ ['\n']) = ts := by
    rw [Lexeme.ofText, Lexer.ofText_append_newline, hts,
      Lexer.lexemes_of_done (Lexer.done_nil _), List.append_nil]
  have hback : Lexeme.ofText back = Lexer.lexemes ⟨back, .start, false⟩ := by
    rw [Lexeme.ofText, Lexer.ofText_of_head hmark]
  rw [hfront, hback, ← Lexer.lexemes_shift, Lexeme.ofText, Lexer.ofText_append_newline, hts]
  rfl

/-- A raw string that goes over a newline, behind a block comment: both are closed, and the name in the
third line is read like a text of its own. -/
theorem lexemes_restart_raw :
    Lexeme.ofText "/**/\x60\n\x60\nb".toList = Lexeme.ofText "/**/\x60\n\x60\n".toList ++
      (Lexeme.ofText ['b']).map (·.shift 2 8) := by
  have hlexemes : Lexeme.ofText "/**/\x60\n\x60".toList =
      [⟨⟨.string, "\x60\n\x60"⟩, ⟨1, 5, 4⟩, ⟨2, 2, 7⟩⟩, ⟨.lineEnd, ⟨2, 2, 7⟩, ⟨2, 2, 7⟩⟩] :=
    calc Lexeme.ofText "/**/\x60\n\x60".toList
        = _ :: Lexer.lexemes ⟨[], ⟨2, 2, 7⟩, true⟩ :=
          Lexer.lexemes_of_step (Lexer.step_of_next (by decide))
      _ = _ :: _ :: Lexer.lexemes ⟨[], ⟨2, 2, 7⟩, false⟩ :=
          congrArg _ (Lexer.lexemes_of_step (Lexer.step_of_next (by decide)))
      _ = _ := congrArg _ (congrArg _ (Lexer.lexemes_of_done ⟨rfl, Gap.nil⟩))
  have hraw : ∀ t ∈ Lexeme.ofText "/**/\x60\n\x60".toList,
      t.token.text.toList.head? = some '\x60' → Quoted.Closed t.token.text.toList := by
    rw [hlexemes]
    intro t ht hhead
    rcases List.mem_pair.1 ht with rfl | rfl
    · exact Or.inr ⟨['\n'], by decide, by decide⟩
    · exact absurd hhead (by decide)
  have hblock : ∀ offset body, ¬ SkipsComment "/**/\x60\n\x60".toList 0
      (Lexeme.ofText "/**/\x60\n\x60".toList) offset (.unclosed body) := by
    rw [hlexemes]
    rintro offset body ⟨gap, hgap, front, back, hslice, -, ⟨-, -, hend⟩, -⟩
    -- a gap that reaches the end of the text is empty
    have hempty : ∀ gap ∈ gapBounds 0 7 [⟨⟨.string, "\x60\n\x60"⟩, ⟨1, 5, 4⟩, ⟨2, 2, 7⟩⟩,
        ⟨.lineEnd, ⟨2, 2, 7⟩, ⟨2, 2, 7⟩⟩], gap.2 = 7 →
        slice "/**/\x60\n\x60".toList gap.1 gap.2 = [] := by decide
    rw [hempty gap hgap hend] at hslice
    simp [Comment.text] at hslice
  exact lexemes_restart "/**/\x60\n\x60".toList ['b'] hraw hblock (by decide)

end Caret
