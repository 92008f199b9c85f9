/-
**The tokens in front of the cursor.**

The tokens in front of the cursor are read off the beginning of the lexemes: reading stops at the first
lexeme that does not start before the cursor.  No token is missed that way, because no lexeme behind
this one starts earlier; not even a mark of the end of a line does, which may have no extent.  So the
trail holds all and only the tokens that start before the cursor, whatever the cursor is, and a later
cursor only adds tokens at its end.  The loop over the tokenizer, which reads nothing behind the lexeme
that it stops at, finds the same.

Main definitions:

* `Caret.lexemesBefore` — the lexemes of a text that start before an offset;
* `Caret.Buffer.tokensAt` — the tokens of the trail at a cursor.

Main results:

* `Caret.takeWhile_eq_lexemesBefore` — reading up to the first lexeme that starts later finds them all;
* `Caret.Buffer.tokensAt_ofString` — the trail holds the tokens of these lexemes;
* `Caret.scan?_eq_trailAt?` — so does the loop over the tokenizer;
* `Caret.isPrefix_lexemesBefore` — those in front of an earlier offset come first;
* `Caret.trailAt?_exact` — **the trail holds all and only the tokens in front of the cursor**.
-/

import Caret.Proofs.Checked.Classify

set_option relaxedAutoImplicit false
set_option autoImplicit false

namespace Caret

/-! ### The lexemes in front of an offset -/

/-- The lexemes of a text that start before an offset, wherever they stand among the others. -/
def lexemesBefore (text : List Char) (offset : Nat) : List Lexeme :=
  (Lexeme.ofText text).filter fun t => decide (t.start.offset < offset)

variable {ts : List Lexeme} {text : List Char}

/-- Of lexemes in order, no lexeme behind one that starts later starts earlier. -/
theorem takeWhile_eq_filter (h : Ordered ts) (offset : Nat) :
    ts.takeWhile (fun t => decide (t.start.offset < offset))
      = ts.filter fun t => decide (t.start.offset < offset) := by
  induction ts with
  | nil => rfl
  | cons t ts ih =>
      obtain ⟨hlater, hts⟩ := List.pairwise_cons.1 h
      by_cases ht : t.start.offset < offset
      · rw [List.takeWhile_cons_of_pos (by simpa using ht), List.filter_cons_of_pos (by simpa using ht),
          ih hts]
      · have hnone : ∀ u ∈ t :: ts, ¬ decide (u.start.offset < offset) = true := by
          intro u hu
          rcases List.mem_cons.1 hu with rfl | hu
          · simpa using ht
          · have hlt := (hlater u hu).2
            rw [decide_eq_true_iff]
            omega
        rw [List.takeWhile_cons_of_neg (by simpa using ht), List.filter_eq_nil_iff.2 hnone]

/-- Reading up to the first lexeme that does not start before an offset finds all that do. -/
theorem takeWhile_eq_lexemesBefore (text : List Char) (offset : Nat) :
    (Lexeme.ofText text).takeWhile (fun t => decide (t.start.offset < offset))
      = lexemesBefore text offset :=
  takeWhile_eq_filter (ordered_ofText text) offset

theorem lexemesBefore_eq_nil_iff {offset : Nat} :
    lexemesBefore text offset = [] ↔ ∀ t ∈ Lexeme.ofText text, offset ≤ t.start.offset := by
  simp [lexemesBefore, List.filter_eq_nil_iff]

theorem mem_lexemesBefore {offset : Nat} {t : Lexeme} :
    t ∈ lexemesBefore text offset ↔ t ∈ Lexeme.ofText text ∧ t.start.offset < offset := by
  rw [lexemesBefore, List.mem_filter, decide_eq_true_iff]

/-- The lexemes in front of an earlier offset are the first of those in front of a later one. -/
theorem isPrefix_lexemesBefore {m n : Nat} (h : m ≤ n) :
    lexemesBefore text m <+: lexemesBefore text n := by
  have hboth : lexemesBefore text m
      = (lexemesBefore text n).filter fun t => decide (t.start.offset < m) := by
    rw [lexemesBefore, lexemesBefore, List.filter_filter]
    refine List.filter_congr fun t _ => ?_
    rw [← Bool.decide_and, decide_eq_decide]
    omega
  have hordered : Ordered (lexemesBefore text n) :=
    (ordered_ofText text).sublist List.filter_sublist
  rw [hboth, ← takeWhile_eq_filter hordered m]
  exact List.takeWhile_prefix _

/-! ### The trail -/

namespace Buffer

/-- The tokens of the trail at a cursor, and none if there is no trail. -/
def tokensAt (b : Buffer) (cursor : Nat) : List Token :=
  match b.trailAt? cursor with
  | none => []
  | some (t, _) => t.tokens

section

variable {source : String} {cursor : Nat}

/-- There is no trail if no lexeme starts before the cursor. -/
theorem trailAt?_of_nil
    (h : lexemesBefore source.toList (floorBoundary source.toList cursor) = []) :
    (ofString source).trailAt? cursor = none := by
  rw [trailAt?_eq_none_iff]
  exact (takeWhile_eq_lexemesBefore _ _).trans h

/-- The trail stands on the last of the lexemes that start before the cursor. -/
theorem trailAt?_of_concat {before : List Lexeme} {last : Lexeme}
    (h : lexemesBefore source.toList (floorBoundary source.toList cursor) = before ++ [last]) :
    (ofString source).trailAt? cursor
      = some (⟨(before.map (·.token)).reverse, last.token, []⟩,
        floorBoundary source.toList cursor - last.start.offset) := by
  have hseen : (ofString source).lexemes.takeWhile (fun t => decide
      (t.start.offset < floorBoundary (ofString source).text cursor)) = before ++ [last] :=
    (takeWhile_eq_lexemesBefore _ _).trans h
  simp only [trailAt?, hseen, List.reverse_append, List.reverse_singleton, List.singleton_append,
    List.map_reverse]
  rfl

/-- The trail holds the tokens of the lexemes that start before the cursor. -/
theorem tokensAt_ofString (source : String) (cursor : Nat) :
    (ofString source).tokensAt cursor
      = (lexemesBefore source.toList (floorBoundary source.toList cursor)).map (·.token) := by
  rcases List.eq_nil_or_concat' (lexemesBefore source.toList (floorBoundary source.toList cursor))
    with hnil | ⟨before, last, hlast⟩
  · rw [tokensAt, trailAt?_of_nil hnil, hnil, List.map_nil]
  · rw [tokensAt, trailAt?_of_concat hlast, hlast]
    simp [Trail.tokens]

end

end Buffer

/-- The loop over the tokenizer neither fails nor runs on, and finds the trail as an array of tokens
with an index. -/
theorem scan?_eq_trailAt? (source : String) (cursor : Nat) :
    Checked.scan? source.toList cursor
      = some (((Buffer.ofString source).trailAt? cursor).map fun p => (.ofTrail p.1, p.2)) := by
  rcases exists_lastBefore (ordered_ofText source.toList)
    (floorBoundary source.toList cursor) with hnone | ⟨before, last, after, h⟩
  · rw [Checked.scan?_of_none hnone, Buffer.trailAt?_of_nil (lexemesBefore_eq_nil_iff.2 hnone)]
    rfl
  · have hseen : lexemesBefore source.toList (floorBoundary source.toList cursor) = before ++ [last] := by
      rw [← takeWhile_eq_lexemesBefore, h.takeWhile_eq (ordered_ofText _)]
    rw [Checked.scan?_of_lastBefore h, Buffer.trailAt?_of_concat hseen, List.map_reverse]
    rfl

/-- **The trail holds all and only the tokens in front of the cursor.**  The offset `c` is the cursor,
moved back into the text and to the start of its character.  There is no trail exactly if no token
starts before `c`.  Otherwise it holds those that do, in their order, and stands on the last of them,
from whose start to `c` it is at least one byte.  The loop over the tokenizer, which stops at the first
token that does not start before `c`, finds this trail.  A later cursor only adds tokens at the end. -/
theorem trailAt?_exact (source : String) (cursor : Nat) :
    let text := source.toList
    let c := floorBoundary text cursor
    let seen := lexemesBefore text c
    let b := Buffer.ofString source
    IsGreatest {n | IsBoundary text n ∧ n ≤ min cursor (utf8Length text)} c ∧
    (b.trailAt? cursor = none ↔ ∀ t ∈ Lexeme.ofText text, c ≤ t.start.offset) ∧
    (∀ trail distance, b.trailAt? cursor = some (trail, distance) →
      trail.tokens = seen.map (·.token) ∧ trail.index + 1 = trail.length ∧ 1 ≤ distance ∧
        ∃ last ∈ seen.getLast?, trail.current = last.token ∧ last.start.offset + distance = c) ∧
    Checked.scan? text cursor = some ((b.trailAt? cursor).map fun p => (.ofTrail p.1, p.2)) ∧
    ∀ later, cursor ≤ later → b.tokensAt cursor <+: b.tokensAt later := by
  intro text c seen b
  refine ⟨isGreatest_floorBoundary text cursor, ?_, ?_, scan?_eq_trailAt? source cursor, ?_⟩
  · rw [← lexemesBefore_eq_nil_iff, ← takeWhile_eq_lexemesBefore]
    exact Buffer.trailAt?_eq_none_iff
  · intro trail distance htrail
    rcases List.eq_nil_or_concat' (lexemesBefore text c) with hnil | ⟨before, last, hlast⟩
    · rw [Buffer.trailAt?_of_nil hnil] at htrail
      exact absurd htrail (by simp)
    · rw [Buffer.trailAt?_of_concat hlast] at htrail
      obtain ⟨rfl, rfl⟩ := Prod.mk.inj (Option.some.inj htrail)
      have hmem : last ∈ lexemesBefore text c := hlast ▸ by simp
      have hlt : last.start.offset < c := (mem_lexemesBefore.1 hmem).2
      have hseen : seen = before ++ [last] := hlast
      refine ⟨?_, ?_, ?_, last, ?_, rfl, ?_⟩
      · simp [hseen, Trail.tokens]
      · simp [Trail.index, Trail.length, Trail.tokens]
      · exact Nat.sub_pos_of_lt hlt
      · simp [hseen]
      · exact Nat.add_sub_cancel' hlt.le
  · intro later hle
    rw [Buffer.tokensAt_ofString, Buffer.tokensAt_ofString]
    exact (isPrefix_lexemesBefore (floorBoundary_mono text hle)).map _

end Caret
