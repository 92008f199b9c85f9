/-
**Reading a text up to the cursor.**

A text and the part of it in front of the cursor are read by the same moves until the part ends.
There the two readings may part: a token that the cursor goes through is read up to the cursor only;
a comment that the cursor goes through ends with the part, and the end of the line may be marked in
front of it where the whole text marks none.  Nothing else happens, provided that the cursor does
not split a token of another kind, nor the two characters that open a comment.

Main definitions:

* `Caret.SkipsComment`, `Caret.SkipsCommentAt` — a comment that the lexer skips stands at an offset;
* `Caret.Lexer.extend` — the same lexer with more text behind what it has left;
* `Caret.IsCut` — a lexeme that was read up to the cursor only;
* `Caret.MayHold` — the cursor may stand inside of a lexeme;
* `Caret.Alike` — what stands in front of the cursor in two readings;
* `Caret.Lexer.Admits` — the cursor splits nothing that it must not split.

Main results:

* `Caret.Lexer.skipsCommentAt_of_opens` — where the lexer comes upon a comment, it skips one;
* `Caret.Lexer.alike_lexemes` — **both readings are alike up to the cursor**;
* `Caret.alike_ofText` — the same for whole texts.
-/

import Caret.Proofs.Cutoff
import Caret.Proofs.Seen

set_option relaxedAutoImplicit false
set_option autoImplicit false

namespace Caret

/-! ### Comments in gaps -/

/-- In one of the gaps around the lexemes `ts`, the first of which opens at the offset `start`, the
comment `m` stands at the offset `offset`. -/
def SkipsComment (text : List Char) (start : Nat) (ts : List Lexeme) (offset : Nat)
    (m : Comment) : Prop :=
  ∃ gap ∈ gapBounds start (utf8Length text) ts, ∃ front back,
    slice text gap.1 gap.2 = front ++ (m.text ++ back) ∧ Gap False front ∧
      m.Proper (gap.2 = utf8Length text) back ∧ Gap (gap.2 = utf8Length text) back ∧
      offset = gap.1 + utf8Length front

/-- In such a gap some comment opens at the offset `offset`. -/
def SkipsCommentAt (text : List Char) (start : Nat) (ts : List Lexeme) (offset : Nat) : Prop :=
  ∃ m, SkipsComment text start ts offset m

section

variable {text : List Char} {start offset : Nat} {t : Lexeme} {ts : List Lexeme}

theorem SkipsComment.cons {m : Comment} (h : SkipsComment text t.stop.offset ts offset m) :
    SkipsComment text start (t :: ts) offset m := by
  obtain ⟨gap, hgap, hrest⟩ := h
  exact ⟨gap, List.mem_cons_of_mem _ hgap, hrest⟩

theorem SkipsCommentAt.cons (h : SkipsCommentAt text t.stop.offset ts offset) :
    SkipsCommentAt text start (t :: ts) offset := by
  obtain ⟨m, hm⟩ := h
  exact ⟨m, hm.cons⟩

end

theorem Gap.of_cons {p : Prop} {c : Char} {cs : List Char} (h : Gap p (c :: cs))
    (hc : isSpace c = true) : Gap p cs := by
  generalize hgap : c :: cs = gap at h
  cases h with
  | nil => simp at hgap
  | space _ h =>
      obtain ⟨-, rfl⟩ := List.cons.inj hgap
      exact h
  | @comment m ds _ _ =>
      obtain ⟨x, tail, htext, -⟩ := m.exists_text
      rw [htext] at hgap
      obtain rfl := (List.cons.inj hgap).1
      exact absurd hc (by decide)

theorem Gap.of_blanks_append {p : Prop} {blanks cs : List Char} (h : Gap p (blanks ++ cs))
    (hb : ∀ c ∈ blanks, isBlank c = true) : Gap p cs := by
  induction blanks with
  | nil => exact h
  | cons c blanks ih =>
      have hc : isSpace c = true := by simp [isSpace, hb c List.mem_cons_self]
      exact ih (h.of_cons hc) fun d hd => hb d (List.mem_cons_of_mem c hd)

/-- The blanks in front of a text belong to the gap in front of a comment in it. -/
theorem exists_gap_of_blanks {blanks left gap rest : List Char} (h : blanks ++ left = gap ++ rest)
    (hb : ∀ c ∈ blanks, isBlank c = true) (hg : Gap False gap) (ho : Trivia.Opens rest) :
    ∃ gap', gap = blanks ++ gap' ∧ left = gap' ++ rest ∧ Gap False gap' := by
  rcases List.append_eq_append_iff.1 h with ⟨gap', rfl, hleft⟩ | ⟨mid, rfl, hrest⟩
  · exact ⟨gap', rfl, hleft, hg.of_blanks_append hb⟩
  · cases mid with
    | nil => exact ⟨[], by simp, by simpa using hrest.symm, Gap.nil⟩
    | cons c mid =>
        obtain ⟨x, tail, htext, -⟩ := ho
        rw [hrest] at htext
        obtain rfl := (List.cons.inj htext).1
        exact absurd (hb '/' (by simp)) (by decide)

namespace Lexer

/-- A comment behind an initial part of the gap at the front of a text is skipped with that gap. -/
theorem skipsCommentAt_of_cut {text gap rest : List Char} {l : Lexer} (hl : InText text l)
    (hr : l.rest = gap ++ rest) (hg : Gap False gap) (ho : Trivia.Opens rest) {ts : List Lexeme}
    {stop : Nat} (hstop : stop = l.position.offset + utf8Length (Trivia.cut l.rest).taken)
    (hmem : (l.position.offset, stop) ∈ gapBounds l.position.offset (utf8Length text) ts) :
    SkipsCommentAt text l.position.offset ts (l.position.offset + utf8Length gap) := by
  obtain ⟨m, back, rfl, hm⟩ := Trivia.exists_comment ho
  have hcut : (Trivia.cut l.rest).taken = gap ++ (m.text ++ (Trivia.cut back).taken) := by
    rw [hr, Trivia.cut_gap_append _ hg, Trivia.cut_comment hm]
    rfl
  have hleft : (Trivia.cut l.rest).rest = (Trivia.cut back).rest := by
    rw [hr, Trivia.cut_gap_append _ hg, Trivia.cut_comment hm]
    rfl
  have hwhole : l.rest = (Trivia.cut l.rest).taken ++ ([] ++ (Trivia.cut l.rest).rest) := by
    simpa [Cut.whole] using (Trivia.whole_cut l.rest).symm
  obtain ⟨-, -, hslice, -⟩ := hl.slices hwhole
  rw [← hstop, hcut] at hslice
  -- where the gap takes all that is left, it stops at the end of the text
  have hend : (Trivia.cut back).rest = [] → stop = utf8Length text := by
    intro hnil
    rw [hleft, hnil, List.append_nil, List.append_nil] at hwhole
    rw [hstop, ← hwhole, hl.utf8Length_eq]
  exact ⟨m, _, hmem, gap, (Trivia.cut back).taken, hslice, hg, Trivia.proper_taken_cut hm hend,
    (Trivia.gap_cut back).mono hend, rfl⟩

/-- Where the lexer comes upon a comment behind a gap, it skips one. -/
theorem skipsCommentAt_of_opens {text gap rest : List Char} (l : Lexer) (hl : InText text l)
    (hr : l.rest = gap ++ rest) (hg : Gap False gap) (ho : Trivia.Opens rest) :
    SkipsCommentAt text l.position.offset l.lexemes (l.position.offset + utf8Length gap) := by
  -- the moves that mark the end of a line leave the comment in front of the lexer
  induction l using step_induction generalizing gap with
  | done l hdone =>
      have hstop : utf8Length text = l.position.offset + utf8Length (Trivia.cut l.rest).taken := by
        rw [Trivia.cut_gap hdone.gap, hl.utf8Length_eq]
      refine skipsCommentAt_of_cut hl hr hg ho hstop ?_
      rw [lexemes_of_done hdone]
      exact List.mem_singleton_self _
  | step l t m h ih =>
      have hm := hl.of_step h
      rw [lexemes_of_step h]
      cases h with
      | @newline blanks left _ hb hleft =>
          obtain ⟨gap', rfl, hgap', hg'⟩ := exists_gap_of_blanks (hleft.symm.trans hr) hb hg ho
          cases gap' with
          | nil =>
              obtain ⟨x, tail, htext, -⟩ := ho
              rw [htext] at hgap'
              exact absurd (List.cons.inj hgap').1 (by decide)
          | cons c gap' =>
              obtain ⟨rfl, rfl⟩ := List.cons.inj hgap'
              refine SkipsCommentAt.cons ?_
              have := ih hm rfl (hg'.of_cons (by decide))
              simpa [Nat.add_assoc] using this
      | @lineEnd blanks left _ hb hleft _ =>
          obtain ⟨gap', rfl, hgap', hg'⟩ := exists_gap_of_blanks (hleft.symm.trans hr) hb hg ho
          refine SkipsCommentAt.cons ?_
          have := ih hm hgap' hg'
          simpa [Nat.add_assoc] using this
      | @token gap' span left kind hleft hg' _ _ hstop _ =>
          refine skipsCommentAt_of_cut hl hr hg ho ?_ List.mem_cons_self
          rw [hleft, cut_of_token hg' hstop, Position.offset_after]

/-! ### More text behind a lexer -/

/-- The same lexer with more text behind what it has left. -/
def extend (l : Lexer) (more : List Char) : Lexer := ⟨l.rest ++ more, l.position, l.pending⟩

theorem ofText_append {front : List Char} (more : List Char) (h : front ≠ []) :
    ofText (front ++ more) = (ofText front).extend more := by
  cases front with
  | nil => exact absurd rfl h
  | cons c front =>
      rw [List.cons_append, ofText, ofText]
      split <;> rfl

/-- A move leaves the end of the text where it is. -/
theorem Step.offset_end {l m : Lexer} {t : Lexeme} (h : Step l t m) :
    m.position.offset + utf8Length m.rest = l.position.offset + utf8Length l.rest := by
  obtain ⟨gap, span, hr, -, hstart, hstop, hpos, -⟩ := h.parts
  rw [hpos, hstop, hstart, hr]
  simp only [Position.offset_after, utf8Length_append]
  omega

/-- Behind a gap that leaves something, the text has not ended yet. -/
theorem offset_after_lt {l : Lexer} {gap left : List Char} (hr : l.rest = gap ++ left)
    (hne : left ≠ []) :
    (l.position.after gap).offset < l.position.offset + utf8Length l.rest := by
  have hpos : 0 < utf8Length left := utf8Length_pos hne
  rw [Position.offset_after, hr, utf8Length_append]
  omega

/-- The lexemes that are left do not start before the first of them. -/
theorem Step.offset_le {l m : Lexer} {t : Lexeme} {cursor : Nat} (h : Step l t m)
    (ht : cursor ≤ t.start.offset) : ∀ u ∈ l.lexemes, cursor ≤ u.start.offset := by
  intro u hu
  rw [lexemes_of_step h] at hu
  rcases List.mem_cons.1 hu with rfl | hu
  · exact ht
  · have := (h.stop_le u hu).2
    omega

/-- Behind a text that is all gap no token starts in it. -/
theorem offset_le_of_gap {l : Lexer} {cs more : List Char} (hr : l.rest = cs ++ more)
    (hcs : (Trivia.cut cs).rest = [])
    (hp : l.pending = true → endsLine (Trivia.cut l.rest) = false) :
    ∀ u ∈ l.lexemes, l.position.offset + utf8Length cs ≤ u.start.offset := by
  rcases l.done_or_step with hdone | ⟨t, m, h⟩
  · rw [lexemes_of_done hdone]
    simp
  · refine h.offset_le ?_
    cases h with
    | @newline blanks rest hpend hb hleft =>
        have := hp hpend
        rw [hleft, cut_blanks _ hb, endsLine_keep_blanks hb, endsLine_newline] at this
        exact absurd this (by decide)
    | @lineEnd blanks rest hpend hb hleft hat =>
        have := hp hpend
        rw [hleft, cut_blanks _ hb, endsLine_keep_blanks hb, endsLine_of_endsLineAt hat] at this
        exact absurd this (by decide)
    | @token gap span rest kind hleft hg _ _ hstop _ =>
        have hpre : cs <+: gap := by
          have := Trivia.prefix_taken_cutFrom .between more hcs
          have hcut : Trivia.cutFrom .between (cs ++ more) = ⟨gap, span ++ rest⟩ := by
            rw [← hr, hleft]
            exact cut_of_token hg hstop
          rwa [hcut] at this
        obtain ⟨back, rfl⟩ := hpre
        simp only [Position.offset_after, utf8Length_append]
        omega

theorem start_lineEnd (l : Lexer) :
    l.lineEnd.1.start = l.position.after (Cut.run isBlank l.rest).taken := by
  unfold lineEnd
  simp only
  split <;> rfl

/-- Behind blanks no lexeme starts among them. -/
theorem offset_le_of_blanks {l : Lexer} {blanks more : List Char} (hr : l.rest = blanks ++ more)
    (hb : ∀ c ∈ blanks, isBlank c = true) :
    ∀ u ∈ l.lexemes, l.position.offset + utf8Length blanks ≤ u.start.offset := by
  by_cases hp : l.pending = true ∧ endsLine (Trivia.cut l.rest) = true
  · -- the end of the line is marked behind the blanks
    have h := step_lineEnd hp.1 hp.2
    have hrun : (Cut.run isBlank l.rest).taken = blanks ++ more.takeWhile isBlank := by
      rw [hr, Cut.run, List.takeWhile_append_of_pos hb]
    refine h.offset_le ?_
    rw [start_lineEnd, hrun, Position.offset_after, utf8Length_append]
    omega
  · refine offset_le_of_gap hr ?_ ?_
    · have := Trivia.cut_gap ((Gap.of_blanks hb).mono False.elim)
      rw [this]
    · intro hpend
      cases he : endsLine (Trivia.cut l.rest) with
      | false => rfl
      | true => exact absurd ⟨hpend, he⟩ hp

end Lexer

/-! ### Two readings -/

/-- The cursor may stand inside of the lexeme `t`: in a string or a rune, or in an identifier that is
no keyword up to the cursor. -/
def MayHold (text : List Char) (cursor : Nat) (t : Lexeme) : Prop :=
  t.token.kind = .string ∨ t.token.kind = .char ∨
    t.token.kind = .ident ∧
      Keyword.ofWord? (String.ofList (slice text t.start.offset cursor)) = none

/-- The lexeme `u` is the part in front of the cursor of the literal or identifier `t`. -/
structure IsCut (cursor : Nat) (t u : Lexeme) : Prop where
  kind : u.token.kind = t.token.kind
  literal : t.token.kind = .string ∨ t.token.kind = .char ∨ t.token.kind = .ident
  read : ∃ front span back rest, ReadAt front (span ++ back) rest t ∧ ReadAt front span [] u ∧
    back ≠ [] ∧ cursor = utf8Length (front ++ span)

theorem IsCut.offsets {cursor : Nat} {t u : Lexeme} (h : IsCut cursor t u) :
    u.start.offset = t.start.offset ∧ t.start.offset < cursor ∧ cursor < t.stop.offset ∧
      cursor = u.stop.offset := by
  obtain ⟨-, -, front, span, back, rest, ht, hu, hback, hcursor⟩ := h
  have hspan : 0 < utf8Length span := utf8Length_pos hu.ne_nil
  have hpos : 0 < utf8Length back := utf8Length_pos hback
  rw [utf8Length_append] at hcursor
  rw [ht.start, hu.start, ht.stop, hu.stop, utf8Length_append]
  exact ⟨rfl, by omega, by omega, hcursor⟩

/-- Up to the cursor both lexemes say the same, which is all that the shorter one says. -/
theorem IsCut.takeBytes_eq {cursor : Nat} {t u : Lexeme} (h : IsCut cursor t u) :
    takeBytes (cursor - t.start.offset) t.token.text.toList = u.token.text.toList ∧
      takeBytes (cursor - u.start.offset) u.token.text.toList = u.token.text.toList := by
  obtain ⟨-, -, front, span, back, rest, ht, hu, -, hcursor⟩ := h
  have hdistance : cursor - utf8Length front = utf8Length span := by
    rw [hcursor, utf8Length_append, Nat.add_sub_cancel_left]
  rw [ht.start, hu.start, hdistance, ht.toList_text, hu.toList_text, takeBytes_append,
    takeBytes_of_le le_rfl]
  exact ⟨rfl, rfl⟩

/-- The end of a line may be marked behind a token of this kind, or behind one before it. -/
def MayEndLine (kind : Kind) : Prop := kind = .illegal ∨ kind.endsStatement = true

instance (kind : Kind) : Decidable (MayEndLine kind) := inferInstanceAs (Decidable (_ ∨ _))

/-- What stands in front of the cursor in two readings: the same last lexeme, the same up to the
cursor, or one mark of the end of a line more in the second reading. -/
inductive Alike (cursor : Nat) (ts us : List Lexeme) : Prop
  | none : (∀ t ∈ ts, cursor ≤ t.start.offset) → (∀ u ∈ us, cursor ≤ u.start.offset) →
      Alike cursor ts us
  | same {before after after' : List Lexeme} {t : Lexeme} :
      LastBefore ts cursor before t after → LastBefore us cursor before t after' →
      Alike cursor ts us
  | cut {before after after' : List Lexeme} {t u : Lexeme} :
      LastBefore ts cursor before t after → LastBefore us cursor before u after' →
      IsCut cursor t u → Alike cursor ts us
  | marked {before after after' : List Lexeme} {t u : Lexeme} :
      LastBefore ts cursor before t after → LastBefore us cursor (before ++ [t]) u after' →
      t.stop.offset < cursor → MayEndLine t.token.kind → u.token = .lineEnd → Alike cursor ts us

/-- Where nothing follows in front of the cursor, readings that agreed so far are alike. -/
theorem Alike.of_le {cursor : Nat} {before ts us : List Lexeme}
    (hb : ∀ t ∈ before, t.start.offset < cursor) (ht : ∀ t ∈ ts, cursor ≤ t.start.offset)
    (hu : ∀ u ∈ us, cursor ≤ u.start.offset) : Alike cursor (before ++ ts) (before ++ us) := by
  rcases List.eq_nil_or_concat' before with rfl | ⟨before, t, rfl⟩
  · exact Alike.none ht hu
  · have hlt := hb t (by simp)
    exact Alike.same ⟨List.append_assoc .., hlt, ht⟩ ⟨List.append_assoc .., hlt, hu⟩

namespace Lexer

/-- The cursor splits nothing of what the lexer has left that it must not split. -/
structure Admits (text : List Char) (cursor : Nat) (l : Lexer) : Prop where
  inText : InText text l
  token : ∀ t ∈ l.lexemes, t.start.offset < cursor → cursor < t.stop.offset →
    MayHold text cursor t
  comment : ∀ offset, SkipsCommentAt text l.position.offset l.lexemes offset → cursor ≠ offset + 1

theorem Admits.of_step {text : List Char} {cursor : Nat} {l m : Lexer} {t : Lexeme}
    (hl : Admits text cursor l) (h : Step l t m) : Admits text cursor m := by
  have hlex := lexemes_of_step h
  obtain ⟨gap, span, -, -, -, -, hpos, -⟩ := h.parts
  refine ⟨hl.inText.of_step h, ?_, ?_⟩
  · intro u hu
    exact hl.token u (by rw [hlex]; exact List.mem_cons_of_mem t hu)
  · intro offset ho
    refine hl.comment offset ?_
    rw [hlex]
    rw [hpos] at ho
    exact ho.cons

/-- The lexemes read so far, as far as they matter to a lexer in front of the cursor: all start
before the cursor, and the last of them may end a line if the end of the line is pending. -/
structure Read (cursor : Nat) (l : Lexer) (before : List Lexeme) : Prop where
  lt : ∀ t ∈ before, t.start.offset < cursor
  pending : l.pending = true → ∃ front t, before = front ++ [t] ∧
    t.stop.offset ≤ l.position.offset ∧ MayEndLine t.token.kind

theorem Read.of_step {cursor : Nat} {l m : Lexer} {t : Lexeme} {before : List Lexeme}
    (hb : Read cursor l before) (h : Step l t m) (ht : t.start.offset < cursor) :
    Read cursor m (before ++ [t]) := by
  refine ⟨?_, fun hp => ⟨before, t, rfl, ?_, ?_⟩⟩
  · intro u hu
    rcases List.mem_append.1 hu with hu | hu
    · exact hb.lt u hu
    · rwa [List.mem_singleton.1 hu]
  · obtain ⟨-, -, -, -, -, -, hpos, -⟩ := h.parts
    rw [hpos]
  · cases h with
    | newline => exact absurd hp (by simp)
    | lineEnd => exact absurd hp (by simp)
    | @token gap span rest kind =>
        by_cases hk : kind = .illegal
        · exact Or.inl hk
        · exact Or.inr (by simpa [pendingAfter, hk] using hp)

/-! ### The move at the cut -/

/-- What has no gap in front has none if more text follows, unless a comment opens. -/
theorem cut_append_of_stop {cs : List Char} (more : List Char) (hne : cs ≠ [])
    (h : Trivia.cut cs = .nothing cs) :
    Trivia.cut (cs ++ more) = .nothing (cs ++ more) ∨ cs = ['/'] ∧ Trivia.Opens (cs ++ more) := by
  cases cs with
  | nil => exact absurd rfl hne
  | cons c cs =>
      rcases Trivia.space_or_opens_or_stop c (cs ++ more) with hc | ho | hs
      · rw [Trivia.cut_space cs hc] at h
        exact absurd (congrArg Cut.taken h) (by simp)
      · obtain ⟨x, tail, heq, hx⟩ := ho
        obtain ⟨rfl, htail⟩ := List.cons.inj heq
        cases cs with
        | nil => exact Or.inr ⟨rfl, x, tail, heq, hx⟩
        | cons d cs =>
            -- both characters of the mark stand in front of the cut
            obtain rfl := (List.cons.inj htail).1
            refine absurd ?_ (Trivia.taken_cut_ne_nil_of_opens ⟨d, cs, rfl, hx⟩)
            rw [h, Cut.taken_nothing]
      · exact Or.inl hs

/-- With more text behind it, a lexeme is read as before, or it goes on through the cut. -/
theorem scan_append_cases {text rest : List Char} {kind : Kind} (more : List Char)
    (h : Lexeme.scan (text ++ rest) = (kind, ⟨text, rest⟩)) (hne : text ≠ []) :
    Lexeme.scan (text ++ (rest ++ more)) = (kind, ⟨text, rest ++ more⟩) ∨
      ∃ kind' back left, back ≠ [] ∧ more = back ++ left ∧
        Lexeme.scan (text ++ rest ++ more) = (kind', ⟨text ++ rest ++ back, left⟩) := by
  obtain ⟨kind', ⟨taken, left⟩, hscan⟩ : ∃ kind' cut, Lexeme.scan (text ++ rest ++ more)
      = (kind', cut) := ⟨_, _, rfl⟩
  have hwhole := Lexeme.whole_scan (text ++ rest ++ more)
  rw [hscan] at hwhole
  have htaken : taken ≠ [] := by
    obtain ⟨c, tail, rfl⟩ := List.exists_cons_of_ne_nil hne
    have := Lexeme.taken_scan_ne_nil c (tail ++ rest ++ more)
    rw [show c :: (tail ++ rest ++ more) = c :: tail ++ rest ++ more from rfl, hscan] at this
    exact this
  rcases List.append_eq_append_iff.1 (show taken ++ left = text ++ rest ++ more from hwhole)
    with ⟨mid, hmid, rfl⟩ | ⟨back, rfl, hmore⟩
  · -- it ends in front of the cut, and the shorter text is read the same way
    rw [hmid] at hscan
    have hshort := Lexeme.scan_of_append hscan htaken
    rw [← hmid, h] at hshort
    simp only [Prod.mk.injEq, Cut.mk.injEq] at hshort
    obtain ⟨rfl, rfl, rfl⟩ := hshort
    rw [List.append_assoc] at hscan
    exact Or.inl hscan
  · cases back with
    | nil =>
        rw [List.append_nil] at hscan htaken
        obtain rfl : more = left := hmore
        have hshort := @Lexeme.scan_of_append kind' [] more (text ++ rest)
          (by rw [List.append_nil]; exact hscan) htaken
        rw [List.append_nil, h] at hshort
        simp only [Prod.mk.injEq, Cut.mk.injEq] at hshort
        obtain ⟨rfl, -, rfl⟩ := hshort
        rw [List.append_nil] at hscan
        exact Or.inl hscan
    | cons c back => exact Or.inr ⟨kind', c :: back, left, by simp, hmore, hscan⟩

/-- A literal or an identifier that goes on through the cut is read up to the cut. -/
theorem scan_of_goesOn {cs back left more : List Char} {kind : Kind} (hne : cs ≠ [])
    (hb : back ≠ []) (h : Lexeme.scan (cs ++ more) = (kind, ⟨cs ++ back, left⟩))
    (hk : kind = .string ∨ kind = .char ∨
      kind = .ident ∧ Keyword.ofWord? (String.ofList cs) = none) :
    Lexeme.scan cs = (kind, ⟨cs, []⟩) := by
  obtain ⟨c, cs, rfl⟩ := List.exists_cons_of_ne_nil hne
  rcases hk with hk | hk | ⟨rfl, hword⟩
  · exact Lexeme.scan_quote_of_taken_append (Lexeme.isQuote_of_scan h (Or.inl hk)) h hb
  · exact Lexeme.scan_quote_of_taken_append (Lexeme.isQuote_of_scan h (Or.inr hk)) h hb
  · rw [Lexeme.scan_letter_of_taken_append (Lexeme.isLetter_of_scan h) h hb,
      Kind.ofWord_of_eq_none hword]

/-! ### Both readings -/

variable {text more gap : List Char} {cursor : Nat} {before : List Lexeme} {k : Lexer}

/-- Behind a gap the lexer reads the token that stands there. -/
theorem exists_step_token {l : Lexer} {front span rest : List Char} {kind : Kind}
    (hoff : l.position.offset = utf8Length front) (hr : l.rest = gap ++ (span ++ rest))
    (hg : Gap False gap) (hn : l.pending = true → '\n' ∉ gap) (hne : span ≠ [])
    (hstop : Trivia.cut (span ++ rest) = .nothing (span ++ rest))
    (hscan : Lexeme.scan (span ++ rest) = (kind, ⟨span, rest⟩)) :
    ∃ t m, Step l t m ∧ t.token.kind = kind ∧ ReadAt (front ++ gap) span rest t ∧
      ∀ u ∈ m.lexemes, t.stop.offset ≤ u.start.offset := by
  have h := Step.token hr hg hn hne hstop hscan
  have hstart : (l.position.after gap).offset = utf8Length (front ++ gap) := by
    rw [Position.offset_after, hoff, utf8Length_append]
  refine ⟨_, _, h, rfl, ⟨hstart, ?_, hne, rfl, hscan⟩, fun u hu => (h.stop_le u hu).1⟩
  rw [Position.offset_after, hstart]

/-- Where a token goes on through the cut, the shorter reading reads it up to the cut and then comes
to its end. -/
theorem alike_of_goesOn {cs back left : List Char} {kind : Kind}
    (hk : Admits text cursor (k.extend more))
    (hcursor : cursor = k.position.offset + utf8Length k.rest) (hr : k.rest = gap ++ cs)
    (hg : Gap False gap) (hn : k.pending = true → '\n' ∉ gap) (hne : cs ≠ [])
    (hstop : Trivia.cut cs = .nothing cs)
    (hstop' : Trivia.cut (cs ++ more) = .nothing (cs ++ more))
    (hback : back ≠ []) (hmore : more = back ++ left)
    (hscan : Lexeme.scan (cs ++ more) = (kind, ⟨cs ++ back, left⟩)) :
    Alike cursor (before ++ (k.extend more).lexemes) (before ++ k.lexemes) := by
  obtain ⟨front, htext, hoff⟩ := hk.inText
  have hrest : (k.extend more).rest = gap ++ (cs ++ more) := by rw [extend, hr, List.append_assoc]
  have hwhole : cs ++ more = cs ++ back ++ left := by rw [hmore, List.append_assoc]
  have hcursor' : cursor = utf8Length (front ++ gap ++ cs) := by
    rw [hcursor, hr, List.append_assoc, utf8Length_append front]
    exact congrArg (· + utf8Length (gap ++ cs)) hoff
  have hpos : 0 < utf8Length cs := utf8Length_pos hne
  have hpos' : 0 < utf8Length back := utf8Length_pos hback
  obtain ⟨t, m, hlong, hkind, hread, hlater⟩ := exists_step_token hoff (hwhole ▸ hrest) hg hn
    (by simp [hne]) (hwhole ▸ hstop') (hwhole ▸ hscan)
  have hstart := hread.start
  have hend := hread.stop
  rw [utf8Length_append _ cs] at hcursor'
  rw [utf8Length_append cs back] at hend
  -- the cursor is inside of this token, so it is one that the shorter text holds a part of
  have hhold : MayHold text cursor t :=
    hk.token t (by rw [lexemes_of_step hlong]; exact List.mem_cons_self) (by omega) (by omega)
  have hword : slice text t.start.offset cursor = cs := by
    rw [htext, hrest, hstart, hcursor', ← List.append_assoc, ← List.append_assoc]
    exact slice_append (front ++ gap) cs more
  rw [MayHold, hword, hkind] at hhold
  have hshort := scan_of_goesOn hne hback hscan hhold
  have hnil : cs ++ [] = cs := List.append_nil cs
  obtain ⟨u, n, hstep, hkind', hread', hlater'⟩ := exists_step_token hoff (l := k)
    (by rw [hr, hnil]) hg hn hne (by rw [hnil, hstop]) (by rw [hnil, hshort])
  have hstart' := hread'.start
  have hend' := hread'.stop
  rw [lexemes_of_step hlong, lexemes_of_step hstep]
  refine Alike.cut ⟨rfl, by omega, ?_⟩ ⟨rfl, by omega, ?_⟩
    ⟨hkind'.trans hkind.symm, ?_, front ++ gap, cs, back, left, hread, hread', hback, ?_⟩
  · intro v hv
    have := hlater v hv
    omega
  · intro v hv
    have := hlater' v hv
    omega
  · rw [hkind]
    exact hhold.imp_right fun h => h.imp_right And.left
  · rw [hcursor', utf8Length_append _ cs]

/-- Where a comment goes on through the cut, the shorter reading may mark the end of the line in
front of it. -/
theorem alike_of_comment {blanks left : List Char} (hb : Read cursor k before)
    (hcursor : cursor = k.position.offset + utf8Length k.rest) (hp : k.pending = true)
    (hblanks : ∀ c ∈ blanks, isBlank c = true) (hr : k.rest = blanks ++ left)
    (hopens : Trivia.Opens left) (hleft : (Trivia.cut left).rest = [])
    (hno : endsLine (Trivia.cut (left ++ more)) = false) :
    Alike cursor (before ++ (k.extend more).lexemes) (before ++ k.lexemes) := by
  have hpos : 0 < utf8Length left := by
    obtain ⟨x, tail, rfl, -⟩ := hopens
    exact Nat.add_pos_left (Char.utf8Size_pos _) _
  have hend : endsLine (Trivia.cut left) = true := by simp [endsLine, hleft]
  have hstep := Step.lineEnd hp hblanks hr (Or.inr ⟨hopens, hend⟩)
  -- the whole text marks no end of a line here, and goes on behind the cut
  have hfar : ∀ u ∈ (k.extend more).lexemes, cursor ≤ u.start.offset := by
    rw [hcursor]
    refine offset_le_of_gap (l := k.extend more) rfl ?_ ?_
    · rw [hr, cut_blanks _ hblanks, Cut.rest_keep, hleft]
    · intro _
      rw [extend, hr, List.append_assoc, cut_blanks _ hblanks, endsLine_keep_blanks hblanks, hno]
  have hdone : Done ⟨left, k.position.after blanks, false⟩ :=
    ⟨rfl, Trivia.gap_of_rest_eq_nil hleft⟩
  obtain ⟨front, t, rfl, hstop, hmay⟩ := hb.pending hp
  have hstart := Position.offset_after k.position blanks
  rw [hr, utf8Length_append] at hcursor
  rw [lexemes_of_step hstep, lexemes_of_done hdone]
  exact Alike.marked ⟨List.append_assoc .., hb.lt t (by simp), hfar⟩
    ⟨rfl, by simp only; omega, by simp⟩ (by omega) hmay rfl

/-- Where the shorter text ends a line and the whole text does not, the gap takes all of the shorter
one. -/
theorem rest_eq_nil_of_endsLine {cs : List Char} (h : endsLine (Trivia.cut cs) = true)
    (hno : endsLine (Trivia.cut (cs ++ more)) = false) : (Trivia.cut cs).rest = [] := by
  by_contra hrest
  have hnewline : '\n' ∈ (Trivia.cut cs).taken := by simpa [endsLine, hrest] using h
  have hgap := (Trivia.gap_cut cs).mono hrest
  have hcut : Trivia.cut (cs ++ more)
      = (Trivia.cut ((Trivia.cut cs).rest ++ more)).keep (Trivia.cut cs).taken := by
    rw [← Trivia.cut_gap_append _ hgap, ← List.append_assoc]
    exact congrArg (fun ds => Trivia.cut (ds ++ more)) (Trivia.whole_cut cs).symm
  rw [hcut] at hno
  simp [endsLine, hnewline] at hno

/-- **Both readings are alike up to the cursor**, where the shorter text ends. -/
theorem alike_lexemes (k : Lexer) (hk : Admits text cursor (k.extend more))
    (hb : Read cursor k before) (hcursor : cursor = k.position.offset + utf8Length k.rest) :
    Alike cursor (before ++ (k.extend more).lexemes) (before ++ k.lexemes) := by
  -- the shorter reading is followed move by move
  induction k using step_induction generalizing before with
  | done k hdone =>
      rw [lexemes_of_done hdone]
      refine Alike.of_le hb.lt ?_ (by simp)
      rw [hcursor]
      refine offset_le_of_gap (l := k.extend more) rfl ?_ ?_
      · rw [Trivia.cut_gap hdone.gap]
      · intro hp
        exact absurd (hdone.pending.symm.trans hp) (by decide)
  | step k t m h ih =>
      -- a move that the whole text allows as well leaves the readings alike
      have together (h' : Step (k.extend more) t (m.extend more)) (ht : t.start.offset < cursor) :
          Alike cursor (before ++ (k.extend more).lexemes) (before ++ k.lexemes) := by
        have := ih (hk.of_step h') (hb.of_step h ht) (hcursor.trans h.offset_end.symm)
        rw [List.append_assoc, List.append_assoc] at this
        rwa [lexemes_of_step h', lexemes_of_step h]
      cases h with
      | @newline blanks rest hp hblanks hr =>
          refine together (Step.newline hp hblanks ?_) ?_
          · rw [extend, hr]
            simp
          · rw [hcursor]
            exact offset_after_lt hr (by simp)
      | @lineEnd blanks rest hp hblanks hr hat =>
          have hr' : (k.extend more).rest = blanks ++ (rest ++ more) := by
            rw [extend, hr, List.append_assoc]
          rcases hat with rfl | ⟨⟨x, tail, rfl, hx⟩, hend⟩
          · -- nothing but blanks stands in front of the cut
            rw [List.append_nil] at hr
            have hfar := offset_le_of_blanks (l := k.extend more) hr' hblanks
            have hfar' := offset_le_of_blanks (l := k) (hr.trans (List.append_nil _).symm) hblanks
            rw [← hr] at hfar hfar'
            exact Alike.of_le hb.lt (hcursor ▸ hfar) (hcursor ▸ hfar')
          · cases hno : endsLine (Trivia.cut ('/' :: x :: tail ++ more)) with
            | true =>
                have hopens : Trivia.Opens ('/' :: x :: tail ++ more) := ⟨x, tail ++ more, rfl, hx⟩
                refine together (Step.lineEnd hp hblanks hr' (Or.inr ⟨hopens, hno⟩)) ?_
                rw [hcursor]
                exact offset_after_lt hr (by simp)
            | false =>
                exact alike_of_comment hb hcursor hp hblanks hr ⟨x, tail, rfl, hx⟩
                  (rest_eq_nil_of_endsLine hend hno) hno
      | @token gap span rest kind hr hg hn hne hstop hscan =>
          have hne' : span ++ rest ≠ [] := by simp [hne]
          have hr' : (k.extend more).rest = gap ++ (span ++ rest ++ more) := by
            rw [extend, hr, List.append_assoc]
          rcases cut_append_of_stop more hne' hstop with hstop' | ⟨hslash, hopens⟩
          · rcases scan_append_cases more hscan hne with
              hscan' | ⟨kind', back, left, hback, hmore, hscan'⟩
            · rw [List.append_assoc] at hr' hstop'
              refine together (Step.token hr' hg hn hne hstop' hscan') ?_
              rw [hcursor]
              exact offset_after_lt hr hne'
            · exact alike_of_goesOn hk hcursor hr hg hn hne' hstop hstop' hback hmore hscan'
          · -- the cursor would split the mark that opens a comment
            have hskip := skipsCommentAt_of_opens _ hk.inText hr' hg hopens
            refine absurd ?_ (hk.comment _ hskip)
            rw [hcursor, hr, hslash, utf8Length_append]
            rfl

end Lexer

/-- **Up to the cursor, a text is read like the part of it in front of the cursor.** -/
theorem alike_ofText {text front more : List Char} (htext : text = front ++ more)
    (htoken : ∀ t ∈ Lexeme.ofText text, t.start.offset < utf8Length front →
      utf8Length front < t.stop.offset → MayHold text (utf8Length front) t)
    (hcomment : ∀ offset,
      SkipsCommentAt text (utf8Length (byteOrderMark text)) (Lexeme.ofText text) offset →
        utf8Length front ≠ offset + 1) :
    Alike (utf8Length front) (Lexeme.ofText text) (Lexeme.ofText front) := by
  by_cases hne : front = []
  · subst hne
    exact Alike.none (fun t _ => Nat.zero_le _) fun u _ => Nat.zero_le _
  · have hcursor := (Lexer.inText_ofText front).utf8Length_eq
    have hext : Lexer.ofText text = (Lexer.ofText front).extend more := by
      rw [htext, Lexer.ofText_append more hne]
    have hadmits : Lexer.Admits text (utf8Length front) ((Lexer.ofText front).extend more) := by
      rw [← hext]
      refine ⟨Lexer.inText_ofText text, htoken, fun offset ho => hcomment offset ?_⟩
      rwa [offset_ofText] at ho
    have hread : Lexer.Read (utf8Length front) (Lexer.ofText front) [] :=
      ⟨by simp, fun hp => absurd ((Lexer.pending_ofText front).symm.trans hp) (by decide)⟩
    have := Lexer.alike_lexemes _ hadmits hread hcursor
    rwa [← hext] at this

end Caret
