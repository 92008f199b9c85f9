/-
**The lexemes cover the text.**

Nothing of a text is lost on the way to its tokens: between the places where the lexemes start and
stop lie their texts, between the lexemes lie gaps, and both laid end to end are the text again.
The one thing a token may say that the text does not is the end of a line, whose span holds at most
the newline.

Main definitions:

* `Caret.byteOrderMark` — the mark at the beginning of a text that belongs to no gap;
* `Caret.gapBounds`, `Caret.layOut` — the offsets between which the gaps lie, and gaps and spans
  laid end to end;
* `Caret.Covers` — what it means that lexemes cover a text from an offset on;
* `Caret.Lexer.InText` — the lexer stands inside of a text.

Main results:

* `Caret.Lexer.Step.parts` — **a move splits the text** into a gap, a span and the rest;
* `Caret.Lexer.exists_step_of_mem` — every lexeme is made by a move inside of the text;
* `Caret.Lexer.covers_lexemes` — the lexemes of a lexer cover its text from its place on;
* `Caret.Lexer.pairwise_lexemes` — a lexeme stops before the next one starts;
* `Caret.lexemes_lossless` — **the lexemes of a text cover it**.
-/

import Caret.Proofs.Scan
import Caret.Proofs.Slice
import Caret.Proofs.Step

set_option relaxedAutoImplicit false
set_option autoImplicit false

namespace Caret

/-! ### Gaps and spans -/

/-- The byte order mark at the beginning of a text, if there is one. -/
def byteOrderMark : List Char → List Char
  | [] => []
  | c :: _ => if c = '\uFEFF' then [c] else []

/-- The offsets between which the gaps lie: from `start` to the first lexeme, between the lexemes,
and from the last one to `stop`. -/
def gapBounds (start stop : Nat) : List Lexeme → List (Nat × Nat)
  | [] => [(start, stop)]
  | t :: ts => (start, t.start.offset) :: gapBounds t.stop.offset stop ts

/-- The gaps and the spans of the lexemes laid end to end, from `start` to the end of the text. -/
def layOut (text : List Char) (start : Nat) : List Lexeme → List Char
  | [] => slice text start (utf8Length text)
  | t :: ts => slice text start t.start.offset ++ slice text t.start.offset t.stop.offset
      ++ layOut text t.stop.offset ts

/-- The lexemes `ts` cover the text from the offset `start` on. -/
structure Covers (text : List Char) (start : Nat) (ts : List Lexeme) : Prop where
  /-- Lexemes start and stop between characters. -/
  boundary : ∀ t ∈ ts, IsBoundary text t.start.offset ∧ IsBoundary text t.stop.offset
  /-- A lexeme does not stop before it starts, nor behind the end of the text. -/
  ordered : ∀ t ∈ ts, start ≤ t.start.offset ∧ t.start.offset ≤ t.stop.offset ∧
    t.stop.offset ≤ utf8Length text
  /-- A lexeme stops before the next one starts, and no two start at the same place. -/
  pairwise : ts.Pairwise fun t u => t.stop.offset ≤ u.start.offset ∧ t.start.offset < u.start.offset
  /-- A token that is read has a span, which holds its text, and is written with the same text. -/
  token : ∀ t ∈ ts, t.token ≠ .lineEnd → t.start.offset < t.stop.offset ∧
    t.token.text = String.ofList (slice text t.start.offset t.stop.offset) ∧
    t.token.literal = t.token.text
  /-- The mark of the end of a line has no extent, or holds the newline. -/
  lineEnd : ∀ t ∈ ts, t.token = .lineEnd → t.start.offset = t.stop.offset ∨
    t.start.offset + 1 = t.stop.offset ∧ slice text t.start.offset t.stop.offset = ['\n']
  /-- Between the lexemes lie gaps, and only the last of them may be unfinished. -/
  gap : ∀ p ∈ gapBounds start (utf8Length text) ts, Gap (p.2 = utf8Length text) (slice text p.1 p.2)

/-! ### Inside of a text -/

namespace Lexer

/-- The lexer stands inside of the text: what is still to be read is behind its place. -/
def InText (text : List Char) (l : Lexer) : Prop :=
  ∃ front, text = front ++ l.rest ∧ l.position.offset = utf8Length front

theorem inText_ofText (text : List Char) : InText text (ofText text) := by
  cases text with
  | nil => exact ⟨[], rfl, rfl⟩
  | cons c cs =>
      rw [ofText]
      split
      · exact ⟨[c], rfl, rfl⟩
      · exact ⟨[], rfl, rfl⟩

/-- What lies in front of the place of a lexer, between it and a later place, and behind. -/
theorem InText.slices {text gap span rest : List Char} {l : Lexer} (h : InText text l)
    (hr : l.rest = gap ++ (span ++ rest)) :
    let start := l.position.offset + utf8Length gap
    let stop := start + utf8Length span
    IsBoundary text start ∧ IsBoundary text stop ∧ slice text l.position.offset start = gap ∧
      slice text start stop = span := by
  obtain ⟨front, htext, hoff⟩ := h
  have hstart : l.position.offset + utf8Length gap = utf8Length (front ++ gap) := by
    rw [utf8Length_append, hoff]
  have hstop : utf8Length (front ++ gap) + utf8Length span = utf8Length (front ++ gap ++ span) := by
    rw [utf8Length_append (front ++ gap)]
  refine ⟨?_, ?_, ?_, ?_⟩
  · rw [hstart, htext, hr, ← List.append_assoc]
    exact isBoundary_append _ _
  · rw [hstart, hstop, htext, hr, ← List.append_assoc, ← List.append_assoc]
    exact isBoundary_append _ _
  · rw [hoff, htext, hr, ← List.append_assoc]
    exact slice_append front gap (span ++ rest)
  · rw [hstart, htext, hr, ← List.append_assoc, ← List.append_assoc]
    exact slice_append (front ++ gap) span rest

/-- What is in front of a lexer and what it has left make up the text. -/
theorem InText.utf8Length_eq {text : List Char} {l : Lexer} (h : InText text l) :
    utf8Length text = l.position.offset + utf8Length l.rest := by
  obtain ⟨front, htext, hoff⟩ := h
  rw [hoff, ← utf8Length_append, ← htext]

theorem InText.slice_rest {text : List Char} {l : Lexer} (h : InText text l) :
    slice text l.position.offset (utf8Length text) = l.rest := by
  rw [h.utf8Length_eq]
  exact (h.slices (show l.rest = l.rest ++ ([] ++ []) by simp)).2.2.1

/-- What a lexer has left behind a gap is what the text has left behind it. -/
theorem InText.slice_behind {text gap rest : List Char} {l : Lexer} (h : InText text l)
    (hr : l.rest = gap ++ rest) :
    slice text (l.position.after gap).offset (utf8Length text) = rest := by
  have hslice := (h.slices (show l.rest = gap ++ (rest ++ []) by rw [hr, List.append_nil])).2.2.2
  rwa [h.utf8Length_eq, hr, utf8Length_append, Position.offset_after, ← Nat.add_assoc]

/-! ### What a token that was read says -/

section

variable {span rest : List Char} {kind : Kind}

theorem spelling_of_read (hs : span ≠ []) (h : Lexeme.scan (span ++ rest) = (kind, ⟨span, rest⟩))
    (hk : kind.isLiteral = false) : span = kind.spelling.toList := by
  obtain ⟨c, tail, rfl⟩ : ∃ c tail, span = c :: tail := List.exists_cons_of_ne_nil hs
  exact Lexeme.spelling_of_scan h hk

/-- A token that is read is no mark: a semicolon that is read is spelled `;`, not as a newline. -/
theorem token_ne_lineEnd (hs : span ≠ []) (h : Lexeme.scan (span ++ rest) = (kind, ⟨span, rest⟩)) :
    Token.mk kind (String.ofList span) ≠ .lineEnd := by
  intro heq
  obtain ⟨rfl, htext⟩ := Token.mk.inj heq
  have hspan := congrArg String.toList htext
  rw [String.toList_ofList, spelling_of_read hs h rfl] at hspan
  exact absurd hspan (by decide)

/-- A token that is read is written with the text it was read from. -/
theorem literal_of_scan (hs : span ≠ []) (h : Lexeme.scan (span ++ rest) = (kind, ⟨span, rest⟩)) :
    (Token.mk kind (String.ofList span)).literal = String.ofList span := by
  unfold Token.literal
  split
  · rfl
  · next hk => rw [spelling_of_read hs h (by simpa using hk), String.ofList_toList]

end

/-! ### A move splits the text -/

/-- **A move splits the text** into a gap, the span of its lexeme, and what the lexer has left. -/
theorem Step.parts {l m : Lexer} {t : Lexeme} (h : Step l t m) :
    ∃ gap span, l.rest = gap ++ (span ++ m.rest) ∧ Gap False gap ∧
      t.start = l.position.after gap ∧ t.stop = t.start.after span ∧ m.position = t.stop ∧
      (t.token = .lineEnd ∧ (span = [] ∨ span = ['\n']) ∨
        t.token ≠ .lineEnd ∧ span ≠ [] ∧ t.token.text = String.ofList span ∧
          t.token.literal = t.token.text) := by
  cases h with
  | @newline blanks rest _ hb hr =>
      exact ⟨blanks, ['\n'], hr, Gap.of_blanks hb, rfl, rfl, rfl, Or.inl ⟨rfl, Or.inr rfl⟩⟩
  | @lineEnd blanks rest _ hb hr _ =>
      exact ⟨blanks, [], hr, Gap.of_blanks hb, rfl, rfl, rfl, Or.inl ⟨rfl, Or.inl rfl⟩⟩
  | @token gap span rest kind hr hg _ hs _ hscan =>
      exact ⟨gap, span, hr, hg, rfl, rfl, rfl,
        Or.inr ⟨token_ne_lineEnd hs hscan, hs, rfl, literal_of_scan hs hscan⟩⟩

theorem InText.of_step {text : List Char} {l m : Lexer} {t : Lexeme} (hl : InText text l)
    (h : Step l t m) : InText text m := by
  obtain ⟨front, htext, hoff⟩ := hl
  obtain ⟨gap, span, hr, -, hstart, hstop, hpos, -⟩ := h.parts
  refine ⟨front ++ gap ++ span, ?_, ?_⟩
  · rw [htext, hr]
    simp
  · simp only [hpos, hstop, hstart, Position.offset_after, utf8Length_append, hoff]

/-- Every lexeme is made by a move inside of the text. -/
theorem exists_step_of_mem {text : List Char} {l : Lexer} {t : Lexeme} (hl : InText text l)
    (ht : t ∈ l.lexemes) : ∃ k m, InText text k ∧ Step k t m := by
  induction l using step_induction with
  | done l hdone =>
      rw [lexemes_of_done hdone] at ht
      simp at ht
  | step l u m h ih =>
      rw [lexemes_of_step h] at ht
      rcases List.mem_cons.1 ht with rfl | ht
      · exact ⟨l, m, hl, h⟩
      · exact ih (hl.of_step h) ht

/-! ### The order of the lexemes -/

/-- No lexeme that is left starts before the place of the lexer. -/
theorem offset_le_of_mem (l : Lexer) : ∀ u ∈ l.lexemes, l.position.offset ≤ u.start.offset := by
  induction l using step_induction with
  | done l hl =>
      intro u hu
      rw [lexemes_of_done hl] at hu
      simp at hu
  | step l t m h ih =>
      intro u hu
      obtain ⟨gap, span, -, -, hstart, hstop, hpos, -⟩ := h.parts
      have ht : l.position.offset ≤ t.start.offset := by
        rw [hstart, Position.offset_after]
        exact Nat.le_add_right _ _
      rw [lexemes_of_step h] at hu
      rcases List.mem_cons.1 hu with rfl | hu
      · exact ht
      · have hm := ih u hu
        rw [hpos, hstop, Position.offset_after] at hm
        omega

/-- Where a comment opens, or the text ends, no lexeme starts. -/
theorem offset_lt_of_mem {l : Lexer} (hp : l.pending = false)
    (hr : l.rest = [] ∨ Trivia.Opens l.rest) :
    ∀ u ∈ l.lexemes, l.position.offset < u.start.offset := by
  intro u hu
  rcases l.done_or_step with hdone | ⟨t, m, h⟩
  · rw [lexemes_of_done hdone] at hu
    simp at hu
  · have hm := offset_le_of_mem m
    rw [lexemes_of_step h] at hu
    cases h with
    | newline hpend => simp [hp] at hpend
    | lineEnd hpend => simp [hp] at hpend
    | @token gap span rest kind hrest hg _ hs hstop _ =>
        -- the comment stands in the gap, so the token starts behind it
        have hgap : gap ≠ [] := by
          rintro rfl
          rw [List.nil_append] at hrest
          rcases hr with hr | hr
          · exact hs (List.append_eq_nil_iff.1 (hrest.symm.trans hr)).1
          · rw [hrest] at hr
            exact Trivia.taken_cut_ne_nil_of_opens hr (by rw [hstop, Cut.taken_nothing])
        have hpos : 0 < utf8Length gap := utf8Length_pos hgap
        rcases List.mem_cons.1 hu with rfl | hu
        · rw [Position.offset_after]
          omega
        · have := hm u hu
          rw [Position.offset_after, Position.offset_after] at this
          omega

/-- A lexeme stops before those behind it start, and starts before them. -/
theorem Step.stop_le {l m : Lexer} {t : Lexeme} (h : Step l t m) :
    ∀ u ∈ m.lexemes, t.stop.offset ≤ u.start.offset ∧ t.start.offset < u.start.offset := by
  intro u hu
  have hle := offset_le_of_mem m u hu
  cases h with
  | @newline blanks rest =>
      simp only [Position.offset_advance] at hle ⊢
      have := '\n'.utf8Size_pos
      exact ⟨hle, by omega⟩
  | @lineEnd blanks rest _ _ _ hat =>
      -- the mark has no extent, so the next lexeme could start where it stands
      have hlt := offset_lt_of_mem (l := ⟨rest, l.position.after blanks, false⟩) rfl
        (hat.imp_right And.left) u hu
      exact ⟨hle, hlt⟩
  | @token gap span rest kind _ _ _ hs _ _ =>
      have hpos : 0 < utf8Length span := utf8Length_pos hs
      simp only [Position.offset_after] at hle ⊢
      exact ⟨hle, by omega⟩

theorem pairwise_lexemes (l : Lexer) : l.lexemes.Pairwise fun t u =>
    t.stop.offset ≤ u.start.offset ∧ t.start.offset < u.start.offset := by
  induction l using step_induction with
  | done l hl =>
      rw [lexemes_of_done hl]
      exact List.Pairwise.nil
  | step l t m h ih =>
      rw [lexemes_of_step h]
      exact List.Pairwise.cons h.stop_le ih

/-! ### The lexemes cover the text -/

/-- What a move adds in front of lexemes that cover the rest of the text. -/
theorem Covers.cons_of_step {text : List Char} {l m : Lexer} {t : Lexeme} (hl : InText text l)
    (h : Step l t m) (hm : Covers text m.position.offset m.lexemes) :
    Covers text l.position.offset (t :: m.lexemes) := by
  obtain ⟨gap, span, hr, hg, hstart, hstop, hpos, hspan⟩ := h.parts
  obtain ⟨hbstart, hbstop, hsgap, hsspan⟩ := hl.slices hr
  have hstart' : t.start.offset = l.position.offset + utf8Length gap := by
    rw [hstart, Position.offset_after]
  have hstop' : t.stop.offset = t.start.offset + utf8Length span := by
    rw [hstop, Position.offset_after]
  rw [← hstart', ← hstop'] at hbstop hsspan
  rw [← hstart'] at hbstart hsgap
  refine ⟨?_, ?_, List.Pairwise.cons h.stop_le hm.pairwise, ?_, ?_, ?_⟩
  · intro u hu
    rcases List.mem_cons.1 hu with rfl | hu
    · exact ⟨hbstart, hbstop⟩
    · exact hm.boundary u hu
  · intro u hu
    rcases List.mem_cons.1 hu with rfl | hu
    · exact ⟨by omega, by omega, hbstop.le⟩
    · obtain ⟨hle, hu'⟩ := hm.ordered u hu
      exact ⟨by rw [hpos] at hle; omega, hu'⟩
  · intro u hu hne
    rcases List.mem_cons.1 hu with rfl | hu
    · rcases hspan with ⟨heq, -⟩ | ⟨-, hs, htext, hlit⟩
      · exact absurd heq hne
      · have : 0 < utf8Length span := utf8Length_pos hs
        exact ⟨by omega, by rw [hsspan, htext], hlit⟩
    · exact hm.token u hu hne
  · intro u hu heq
    rcases List.mem_cons.1 hu with rfl | hu
    · rcases hspan with ⟨-, rfl | rfl⟩ | ⟨hne, -⟩
      · exact Or.inl hstop'.symm
      · exact Or.inr ⟨hstop'.symm, hsspan⟩
      · exact absurd heq hne
    · exact hm.lineEnd u hu heq
  · intro p hp
    rcases List.mem_cons.1 hp with rfl | hp
    · rw [hsgap]
      exact hg.mono False.elim
    · rw [← hpos] at hp
      exact hm.gap p hp

/-- The lexemes of a lexer cover its text from its place on. -/
theorem covers_lexemes {text : List Char} (l : Lexer) (hl : InText text l) :
    Covers text l.position.offset l.lexemes := by
  -- every move leaves the lexer inside of the text
  induction l using step_induction with
  | done l hdone =>
      rw [lexemes_of_done hdone]
      refine ⟨?_, ?_, List.Pairwise.nil, ?_, ?_, ?_⟩
      · simp
      · simp
      · simp
      · simp
      · intro p hp
        obtain rfl : p = (l.position.offset, utf8Length text) := by simpa [gapBounds] using hp
        rw [hl.slice_rest]
        exact hdone.gap.mono fun _ => rfl
  | step l t m h ih =>
      rw [lexemes_of_step h]
      exact Covers.cons_of_step hl h (ih (hl.of_step h))

end Lexer

/-! ### The whole text -/

theorem offset_ofText (text : List Char) :
    (Lexer.ofText text).position.offset = utf8Length (byteOrderMark text) := by
  cases text with
  | nil => rfl
  | cons c cs =>
      rw [Lexer.ofText, byteOrderMark]
      split <;> rfl

theorem byteOrderMark_prefix (text : List Char) : byteOrderMark text <+: text := by
  cases text with
  | nil => simp [byteOrderMark]
  | cons c cs =>
      rw [byteOrderMark]
      split
      · exact ⟨cs, rfl⟩
      · exact List.nil_prefix

theorem Covers.tail {text : List Char} {start : Nat} {t : Lexeme} {ts : List Lexeme}
    (h : Covers text start (t :: ts)) : Covers text t.stop.offset ts where
  boundary u hu := h.boundary u (List.mem_cons_of_mem t hu)
  ordered u hu :=
    ⟨(List.rel_of_pairwise_cons h.pairwise hu).1, (h.ordered u (List.mem_cons_of_mem t hu)).2⟩
  pairwise := h.pairwise.of_cons
  token u hu := h.token u (List.mem_cons_of_mem t hu)
  lineEnd u hu := h.lineEnd u (List.mem_cons_of_mem t hu)
  gap p hp := h.gap p (List.mem_cons_of_mem _ hp)

/-- Lexemes that cover a text make it up, together with the gaps between them. -/
theorem Covers.layOut_eq {text : List Char} {start : Nat} {ts : List Lexeme}
    (h : Covers text start ts) : layOut text start ts = slice text start (utf8Length text) := by
  induction ts generalizing start with
  | nil => rfl
  | cons t ts ih =>
      obtain ⟨hstart, hspan, hstop⟩ := h.ordered t List.mem_cons_self
      rw [layOut, ih h.tail, slice_append_slice hstart hspan,
        slice_append_slice (hstart.trans hspan) hstop]

/-- **The lexemes of a text cover it**: behind the byte order mark they and the gaps between them
are all of the text. -/
theorem lexemes_lossless (source : String) :
    let text := source.toList
    let mark := byteOrderMark text
    Covers text (utf8Length mark) (Lexeme.ofText text) ∧
      mark ++ layOut text (utf8Length mark) (Lexeme.ofText text) = text := by
  intro text mark
  have hcovers : Covers text (utf8Length mark) (Lexeme.ofText text) := by
    rw [← offset_ofText]
    exact Lexer.covers_lexemes _ (Lexer.inText_ofText text)
  refine ⟨hcovers, ?_⟩
  have hpre := byteOrderMark_prefix text
  have hend : utf8Length mark ≤ utf8Length text := IsBoundary.le ⟨mark, hpre, rfl⟩
  calc mark ++ layOut text (utf8Length mark) (Lexeme.ofText text)
      = takeBytes (utf8Length mark) text ++ slice text (utf8Length mark) (utf8Length text) := by
        rw [takeBytes_of_isPrefix hpre, hcovers.layOut_eq]
    _ = takeBytes (utf8Length text) text := takeBytes_append_slice hend
    _ = text := takeBytes_of_le le_rfl

end Caret
