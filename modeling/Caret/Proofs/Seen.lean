/-
**The lexemes in front of the cursor.**

Of the lexemes of a text those count that start before the cursor.  They are an initial part of the
list, because the lexemes stand in the order of their starts, and the last of them decides what the
cursor stands in.  This module names that lexeme by what stands around it, says what the classifier
does with it, and takes the text apart around a lexeme that was read from it.

Main definitions:

* `Caret.LastBefore` — a lexeme is the last one that starts before an offset;
* `Caret.ReadAt` — a lexeme was read at a place of the text.

Main results:

* `Caret.classify_of_lastBefore`, `Caret.classify_of_none` — what the classifier does with the last
  lexeme in front of the cursor, and without one;
* `Caret.exists_lastBefore` — there is one unless no lexeme starts before the cursor;
* `Caret.ReadAt.takeBytes_eq_slice` — the part of a lexeme up to an offset in it is a slice of the
  text;
* `Caret.Lexer.readAt_of_mem`, `Caret.exists_readAt` — a lexeme that marks no end of a line was read from
  the text.
-/

import Caret.Context
import Caret.Proofs.Literal
import Caret.Proofs.Lossless

set_option relaxedAutoImplicit false
set_option autoImplicit false

namespace Caret

/-! ### The last lexeme in front of an offset -/

/-- Of the lexemes `ts`, the one that stands between `before` and `after` is the last that starts
before the cursor. -/
structure LastBefore (ts : List Lexeme) (cursor : Nat) (before : List Lexeme) (t : Lexeme)
    (after : List Lexeme) : Prop where
  eq : ts = before ++ t :: after
  lt : t.start.offset < cursor
  le : ∀ u ∈ after, cursor ≤ u.start.offset

/-- The lexemes stand in the order of their starts. -/
def Ordered (ts : List Lexeme) : Prop :=
  ts.Pairwise fun t u => t.stop.offset ≤ u.start.offset ∧ t.start.offset < u.start.offset

theorem ordered_ofText (text : List Char) : Ordered (Lexeme.ofText text) :=
  Lexer.pairwise_lexemes _

variable {ts before after : List Lexeme} {t : Lexeme} {cursor : Nat}

theorem LastBefore.mem (h : LastBefore ts cursor before t after) : t ∈ ts := by
  rw [h.eq]
  simp

/-- What stands before the last of the lexemes that start before the cursor starts before it too. -/
theorem LastBefore.lt_of_mem (h : LastBefore ts cursor before t after) (ho : Ordered ts) :
    ∀ u ∈ before ++ [t], u.start.offset < cursor := by
  have hlt := h.lt
  intro u hu
  rcases List.mem_append.1 hu with hu | hu
  · rw [h.eq] at ho
    have := ((List.pairwise_append.1 ho).2.2 u hu t List.mem_cons_self).2
    omega
  · rwa [List.mem_singleton.1 hu]

/-- The lexemes that start before the cursor end with the last of them. -/
theorem LastBefore.takeWhile_eq (h : LastBefore ts cursor before t after) (ho : Ordered ts) :
    ts.takeWhile (fun u => decide (u.start.offset < cursor)) = before ++ [t] := by
  have hbefore : ∀ u ∈ before ++ [t], decide (u.start.offset < cursor) = true :=
    fun u hu => decide_eq_true (h.lt_of_mem ho u hu)
  have hafter : after.takeWhile (fun u => decide (u.start.offset < cursor)) = [] := by
    cases hcase : after with
    | nil => rfl
    | cons u us =>
        have := h.le u (hcase ▸ List.mem_cons_self)
        exact List.takeWhile_cons_of_neg (by simpa using this)
  rw [h.eq, ← List.singleton_append, ← List.append_assoc,
    List.takeWhile_append_of_pos hbefore, hafter, List.append_nil]

/-- A lexeme is the last one in front of every offset in it, up to its end. -/
theorem LastBefore.of_le_stop {other : Nat} (h : LastBefore ts cursor before t after)
    (ho : Ordered ts) (hlt : t.start.offset < other) (hle : other ≤ t.stop.offset) :
    LastBefore ts other before t after := by
  refine ⟨h.eq, hlt, ?_⟩
  intro u hu
  rw [h.eq] at ho
  have hpair := (List.pairwise_append.1 ho).2.1
  exact hle.trans (List.rel_of_pairwise_cons hpair hu).1

/-- Unless no lexeme starts before the cursor, there is a last one. -/
theorem exists_lastBefore (ho : Ordered ts) (cursor : Nat) :
    (∀ u ∈ ts, cursor ≤ u.start.offset) ∨ ∃ before t after, LastBefore ts cursor before t after := by
  induction ts with
  | nil => exact Or.inl (by simp)
  | cons u us ih =>
      have hu := List.pairwise_cons.1 ho
      by_cases hcur : cursor ≤ u.start.offset
      · refine Or.inl ?_
        intro v hv
        rcases List.mem_cons.1 hv with rfl | hv
        · exact hcur
        · have := (hu.1 v hv).2
          omega
      · rcases ih hu.2 with hall | ⟨before, t, after, h⟩
        · exact Or.inr ⟨[], u, us, rfl, by omega, hall⟩
        · exact Or.inr ⟨u :: before, t, after, by rw [h.eq]; rfl, h.lt, h.le⟩

namespace Buffer

/-- With no lexeme in front of the cursor nothing is recognised. -/
theorem contextAt_of_none {b : Buffer}
    (h : ∀ u ∈ b.lexemes, floorBoundary b.text cursor ≤ u.start.offset) :
    b.contextAt cursor = .unknown "" := by
  have hnone : b.trailAt? cursor = none := by
    rw [trailAt?_eq_none_iff]
    cases hb : b.lexemes with
    | nil => rfl
    | cons u us =>
        have := h u (hb ▸ List.mem_cons_self)
        exact List.takeWhile_cons_of_neg (by simpa using this)
  rw [contextAt, hnone]

/-- The last lexeme in front of the cursor is looked at first, then those before it. -/
theorem contextAt_of_lastBefore {b : Buffer} (ho : Ordered b.lexemes)
    (h : LastBefore b.lexemes (floorBoundary b.text cursor) before t after) :
    b.contextAt cursor = .ofTrail ⟨before.reverse.map (·.token), t.token, []⟩
      (floorBoundary b.text cursor - t.start.offset) := by
  simp only [contextAt, trailAt?, h.takeWhile_eq ho, List.reverse_append, List.reverse_singleton,
    List.singleton_append]

end Buffer

section

variable {source : String} {c : Nat}

theorem classify_of_none (hc : floorBoundary source.toList cursor = c)
    (h : ∀ u ∈ Lexeme.ofText source.toList, c ≤ u.start.offset) :
    classify source cursor = .unknown "" := by
  subst hc
  exact Buffer.contextAt_of_none (b := Buffer.ofString source) h

theorem classify_of_lastBefore (hc : floorBoundary source.toList cursor = c)
    (h : LastBefore (Lexeme.ofText source.toList) c before t after) :
    classify source cursor
      = .ofTrail ⟨before.reverse.map (·.token), t.token, []⟩ (c - t.start.offset) := by
  subst hc
  exact Buffer.contextAt_of_lastBefore (b := Buffer.ofString source) (ordered_ofText _) h

end

/-! ### Where a lexeme was read -/

/-- The lexeme `t` was read where `span` stands between `front` and `rest`. -/
structure ReadAt (front span rest : List Char) (t : Lexeme) : Prop where
  start : t.start.offset = utf8Length front
  stop : t.stop.offset = utf8Length front + utf8Length span
  ne_nil : span ≠ []
  text : t.token.text = String.ofList span
  scan : Lexeme.scan (span ++ rest) = (t.token.kind, ⟨span, rest⟩)

theorem ReadAt.toList_text {front span rest : List Char} (h : ReadAt front span rest t) :
    t.token.text.toList = span := by
  rw [h.text, String.toList_ofList]

/-- A lexeme is as long as its text. -/
theorem ReadAt.stop_eq {front span rest : List Char} (h : ReadAt front span rest t) :
    t.stop.offset = t.start.offset + utf8Length t.token.text.toList := by
  rw [h.stop, h.start, h.toList_text]

/-- A string that was read is unterminated exactly if it is not closed. -/
theorem ReadAt.isUnterminated_iff {front span rest : List Char} (h : ReadAt front span rest t)
    (hk : t.token.kind = .string) : t.token.isUnterminated = true ↔ ¬ Quoted.Closed span := by
  obtain ⟨c, tail, rfl⟩ := List.exists_cons_of_ne_nil h.ne_nil
  have hscan := h.scan
  rw [hk] at hscan
  have htoken : t.token = ⟨.string, String.ofList (c :: tail)⟩ := by rw [← hk, ← h.text]
  rw [htoken, Lexeme.isUnterminated_iff hscan]

/-- The cursor is inside of a string that was read if it is in front of its end, or at the end of a
string without a closing quote. -/
theorem ReadAt.insideString_iff {front span rest : List Char} (h : ReadAt front span rest t)
    (hk : t.token.kind = .string) (hlt : t.start.offset < cursor) :
    insideString t.token (cursor - t.start.offset) = true ↔
      cursor < t.stop.offset ∨ cursor = t.stop.offset ∧ ¬ Quoted.Closed span := by
  have hstart := h.start
  have hstop := h.stop
  rw [insideString, h.toList_text, Bool.or_eq_true, decide_eq_true_iff, Bool.and_eq_true,
    h.isUnterminated_iff hk, beq_iff_eq]
  refine or_congr ?_ (and_congr_left' ?_)
  · omega
  · omega

/-- The part of a lexeme up to an offset in it is the slice of the text from its start. -/
theorem ReadAt.takeBytes_eq_slice {text front span rest : List Char}
    (h : ReadAt front span rest t) (htext : text = front ++ (span ++ rest))
    (hstart : t.start.offset ≤ cursor) (hstop : cursor ≤ t.stop.offset) :
    takeBytes (cursor - t.start.offset) span = slice text t.start.offset cursor := by
  have hlength := h.stop
  rw [h.start] at hstart ⊢
  have hfront : takeBytes (utf8Length front) text = front := by rw [htext, takeBytes_append]
  have hcursor : takeBytes cursor text = front ++ takeBytes (cursor - utf8Length front) span := by
    rw [htext, takeBytes_append_left _ hstart, takeBytes_append_of_le (by omega)]
  rw [slice, hfront, hcursor, List.drop_left]

/-- What stands behind a lexeme is the rest of the text. -/
theorem ReadAt.slice_stop {text front span rest : List Char} (h : ReadAt front span rest t)
    (htext : text = front ++ (span ++ rest)) :
    slice text t.stop.offset (utf8Length text) = rest := by
  have hslice := slice_append (front ++ span) rest []
  rwa [List.append_nil, ← utf8Length_append, utf8Length_append front, ← h.stop, List.append_assoc,
    ← htext] at hslice

/-- A string is what its reader cuts off behind the opening quote. -/
theorem ReadAt.exists_cut {front span rest : List Char} (h : ReadAt front span rest t)
    (hk : t.token.kind = .string) :
    ∃ quote tail, (quote = '"' ∨ quote = '\x60') ∧ span = quote :: tail ∧
      Quoted.cut quote (tail ++ rest) = ⟨tail, rest⟩ := by
  obtain ⟨quote, tail, rfl⟩ := List.exists_cons_of_ne_nil h.ne_nil
  have hscan := h.scan
  rw [hk, List.cons_append] at hscan
  have hq := Lexeme.isQuote_of_scan hscan (Or.inl rfl)
  rw [Lexeme.scan_quote _ hq] at hscan
  obtain ⟨hkind, hcut⟩ := Prod.mk.inj hscan
  obtain ⟨htaken, hrest⟩ := Cut.mk.inj hcut
  refine ⟨quote, tail, ?_, rfl, congrArg₂ Cut.mk (List.cons.inj htaken).2 hrest⟩
  rcases hq with rfl | rfl | rfl
  · exact Or.inl rfl
  · exact absurd hkind (by decide)
  · exact Or.inr rfl

/-- The opening quote of a string is its first byte. -/
theorem ReadAt.exists_quote {text front span rest : List Char} (h : ReadAt front span rest t)
    (htext : text = front ++ (span ++ rest)) (hk : t.token.kind = .string) :
    ∃ quote, (quote = '"' ∨ quote = '\x60') ∧
      slice text t.start.offset (t.start.offset + 1) = [quote] := by
  obtain ⟨quote, tail, hquote, rfl, -⟩ := h.exists_cut hk
  have hsize : utf8Length [quote] = 1 := by rcases hquote with rfl | rfl <;> decide
  refine ⟨quote, hquote, ?_⟩
  have hslice := slice_append front [quote] (tail ++ rest)
  rw [hsize, ← h.start] at hslice
  rw [htext, ← hslice]
  simp

namespace Lexer

/-- A move that marks no end of a line reads its lexeme. -/
theorem Step.readAt {text : List Char} {l m : Lexer} (hl : InText text l) (h : Step l t m)
    (ht : t.token ≠ .lineEnd) :
    ∃ front span rest, text = front ++ (span ++ rest) ∧ ReadAt front span rest t := by
  cases h with
  | newline => exact absurd rfl ht
  | lineEnd => exact absurd rfl ht
  | @token gap span rest kind hr _ _ hs _ hscan =>
      obtain ⟨front, htext, hoff⟩ := hl
      refine ⟨front ++ gap, span, rest, by rw [htext, hr, List.append_assoc], ?_⟩
      have hstart : (l.position.after gap).offset = utf8Length (front ++ gap) := by
        rw [Position.offset_after, hoff, utf8Length_append]
      exact ⟨hstart, by rw [Position.offset_after, hstart], hs, rfl, hscan⟩

/-- A lexeme that marks no end of a line was read from the text. -/
theorem readAt_of_mem {text : List Char} {l : Lexer} (hl : InText text l) (ht : t ∈ l.lexemes)
    (hne : t.token ≠ .lineEnd) :
    ∃ front span rest, text = front ++ (span ++ rest) ∧ ReadAt front span rest t := by
  obtain ⟨k, m, hk, h⟩ := exists_step_of_mem hl ht
  exact h.readAt hk hne

end Lexer

/-- A lexeme of a text that is no semicolon was read from the text. -/
theorem exists_readAt {text : List Char} (ht : t ∈ Lexeme.ofText text)
    (hk : t.token.kind ≠ .op .semicolon) :
    ∃ front span rest, text = front ++ (span ++ rest) ∧ ReadAt front span rest t := by
  refine Lexer.readAt_of_mem (Lexer.inText_ofText text) ht fun hmark => hk ?_
  rw [hmark]
  rfl

end Caret
