/-
**Places and offsets.**

A place is found by walking over characters, and the offset of a line and column by going from line
to line and then into the line.  Both ways of counting meet in how a text is put together around a
line: the lines above it, each with its newline, what stands in the line, and the rest.  An offset
inside of a character counts as one behind it, a column behind the end of its line as the end of the
line, and otherwise each way undoes the other.

Main definitions:

* `Caret.IsLine` — a line of a text, with what stands above and below it.

Main results:

* `Caret.IsLine.lines_eq`, `Caret.exists_isLine` — the lines of a text are those that the pieces
  between the newlines give;
* `Caret.isLeast_coverBytes` — the characters that start before an offset end at the smallest
  boundary behind it;
* `Caret.offsetAt_of_isLine`, `Caret.ofOffset_of_isLine` — the offset of a column of a line, and the
  place of a character in a line;
* `Caret.place_round_trip` — **line and column convert to an offset and back**.
-/

import Mathlib.Algebra.GroupWithZero.Nat
import Mathlib.Data.List.TakeWhile
import Mathlib.Order.Bounds.Basic
import Caret.Proofs.Slice
import Caret.Text.Position

set_option relaxedAutoImplicit false
set_option autoImplicit false

namespace Caret

/-! ### Lines -/

/-- A text without a newline is one line. -/
theorem lines_of_not_mem {content : List Char} (h : '\n' ∉ content) : lines content = [content] := by
  induction content with
  | nil => rfl
  | cons c content ih =>
      obtain ⟨hc, hcontent⟩ := not_or.1 (mt List.mem_cons.2 h)
      rw [lines] at ih ⊢
      rw [pieces, if_neg (Ne.symm hc), ih hcontent]

/-- The lines in front of a newline and those behind it. -/
theorem lines_append_newline (above below : List Char) :
    lines (above ++ '\n' :: below) = lines above ++ lines below := by
  induction above with
  | nil => rfl
  | cons c above ih =>
      rw [lines, lines] at ih
      rw [lines, lines, List.cons_append, pieces, pieces]
      by_cases hc : c = '\n'
      · rw [if_pos hc, if_pos hc, ih]
        rfl
      · rw [if_neg hc, if_neg hc, ih]
        have hlen := length_pieces '\n' above
        cases hp : pieces '\n' above with
        | nil => simp [hp] at hlen
        | cons piece rest => rfl

/-- The lines of a text take up its bytes and one more, as if a newline stood behind the last. -/
theorem sum_lines (cs : List Char) :
    ((lines cs).map fun l => utf8Length l + 1).sum = utf8Length cs + 1 := by
  induction cs with
  | nil => rfl
  | cons c cs ih =>
      rw [lines] at ih ⊢
      rw [pieces]
      by_cases hc : c = '\n'
      · subst hc
        have hsize : ('\n').utf8Size = 1 := by decide
        rw [if_pos rfl, List.map_cons, List.sum_cons, ih, utf8Length_nil, utf8Length_cons, hsize]
        omega
      · rw [if_neg hc]
        have hlen := length_pieces '\n' cs
        cases hp : pieces '\n' cs with
        | nil => simp [hp] at hlen
        | cons piece rest =>
            simp only [hp, List.map_cons, List.sum_cons] at ih
            simp only [List.map_cons, List.sum_cons, utf8Length_cons]
            omega

/-- A line of a text: its number, what stands above it, each line with its newline, what stands in
it, and the rest, which starts with the newline that ends it. -/
structure IsLine (text : List Char) (line : Nat) (above content below : List Char) : Prop where
  eq : text = above ++ (content ++ below)
  line_eq : line = above.count '\n' + 1
  above_stop : above = [] ∨ ∃ body, above = body ++ ['\n']
  content_stop : '\n' ∉ content
  below_start : below = [] ∨ ∃ tail, below = '\n' :: tail

/-- What is above a line has as many lines as newlines, and they take up its bytes. -/
theorem exists_lines_above {above : List Char} (h : above = [] ∨ ∃ body, above = body ++ ['\n'])
    (rest : List Char) :
    ∃ ls, lines (above ++ rest) = ls ++ lines rest ∧ ls.length = above.count '\n' ∧
      (ls.map fun l => utf8Length l + 1).sum = utf8Length above := by
  rcases h with rfl | ⟨body, rfl⟩
  · exact ⟨[], rfl, rfl, rfl⟩
  · refine ⟨lines body, ?_, ?_, ?_⟩
    · rw [List.append_assoc, List.singleton_append, lines_append_newline]
    · rw [length_lines, List.count_append, List.count_singleton_self]
    · have hsize : ('\n').utf8Size = 1 := by decide
      rw [sum_lines, utf8Length_append, utf8Length_cons, hsize, utf8Length_nil]

/-- What is in a line is the first line of what is left. -/
theorem exists_lines_below {content below : List Char} (hc : '\n' ∉ content)
    (hb : below = [] ∨ ∃ tail, below = '\n' :: tail) :
    ∃ ls, lines (content ++ below) = content :: ls := by
  rcases hb with rfl | ⟨tail, rfl⟩
  · exact ⟨[], by rw [List.append_nil, lines_of_not_mem hc]⟩
  · exact ⟨lines tail, by rw [lines_append_newline, lines_of_not_mem hc, List.singleton_append]⟩

/-- A line is the piece of its number, behind the pieces above it. -/
theorem IsLine.lines_eq {text above content below : List Char} {line : Nat}
    (h : IsLine text line above content below) :
    (lines text)[line - 1]? = some content ∧
      (((lines text).take (line - 1)).map fun l => utf8Length l + 1).sum = utf8Length above := by
  obtain ⟨ls, hls, hlen, hsum⟩ := exists_lines_above h.above_stop (content ++ below)
  obtain ⟨ms, hms⟩ := exists_lines_below h.content_stop h.below_start
  have hindex : line - 1 = ls.length := by rw [h.line_eq, hlen, Nat.add_sub_cancel]
  rw [h.eq, hls, hms, hindex]
  refine ⟨by simp, ?_⟩
  rw [List.take_left, hsum]

/-- The line that a part of the text ends in goes on to the next newline. -/
theorem isLine_of_append {text above left right : List Char} (heq : text = above ++ (left ++ right))
    (ha : above = [] ∨ ∃ body, above = body ++ ['\n']) (hl : '\n' ∉ left) :
    IsLine text (above.count '\n' + 1) above (left ++ right.takeWhile (· != '\n'))
      (right.dropWhile (· != '\n')) where
  eq := by rw [List.append_assoc, List.takeWhile_append_dropWhile, heq]
  line_eq := rfl
  above_stop := ha
  content_stop := by
    intro hmem
    rcases List.mem_append.1 hmem with hmem | hmem
    · exact hl hmem
    · exact absurd (List.mem_takeWhile_imp hmem) (by decide)
  below_start := by
    cases hdrop : right.dropWhile (· != '\n') with
    | nil => exact Or.inl rfl
    | cons c tail =>
        have hc := List.head?_dropWhile_not (· != '\n') right
        rw [hdrop] at hc
        obtain rfl : c = '\n' := by simpa using hc
        exact Or.inr ⟨tail, rfl⟩

/-- A part of a text consists of full lines and the beginning of one more. -/
theorem exists_last_line (front : List Char) :
    ∃ above left, front = above ++ left ∧ (above = [] ∨ ∃ body, above = body ++ ['\n']) ∧
      '\n' ∉ left := by
  by_cases h : '\n' ∈ front
  · obtain ⟨left, body, hfront, hleft⟩ := List.eq_append_cons_of_mem (List.mem_reverse.2 h)
    refine ⟨body.reverse ++ ['\n'], left.reverse, ?_, Or.inr ⟨_, rfl⟩, by simpa using hleft⟩
    rw [← List.reverse_reverse front, hfront]
    simp
  · exact ⟨[], front, rfl, Or.inl rfl, h⟩

/-- Every number up to that of the lines is the number of a line. -/
theorem exists_isLine {text : List Char} {line : Nat} (hpos : 0 < line)
    (hle : line ≤ text.count '\n' + 1) :
    ∃ above content below, IsLine text line above content below := by
  induction text generalizing line with
  | nil =>
      obtain rfl : line = 1 := by simp at hle; omega
      exact ⟨[], [], [], rfl, rfl, Or.inl rfl, by simp, Or.inl rfl⟩
  | cons c text ih =>
      -- the first line starts here, any other is a line of what follows
      by_cases hone : line = 1
      · subst hone
        exact ⟨[], _, _, @isLine_of_append _ [] [] _ rfl (Or.inl rfl) (by simp)⟩
      · by_cases hc : c = '\n'
        · subst hc
          rw [List.count_cons_self] at hle
          obtain ⟨above, content, below, h⟩ := @ih (line - 1) (by omega) (by omega)
          refine ⟨'\n' :: above, content, below, ?_, ?_, ?_, h.content_stop, h.below_start⟩
          · rw [List.cons_append, ← h.eq]
          · have := h.line_eq
            rw [List.count_cons_self]
            omega
          · rcases h.above_stop with rfl | ⟨body, rfl⟩
            · exact Or.inr ⟨[], rfl⟩
            · exact Or.inr ⟨'\n' :: body, rfl⟩
        · rw [List.count_cons_of_ne hc] at hle
          obtain ⟨above, content, below, h⟩ := ih hpos hle
          have habove : ∃ body, above = body ++ ['\n'] := by
            refine h.above_stop.resolve_left ?_
            rintro rfl
            exact hone h.line_eq
          refine ⟨c :: above, content, below, ?_, ?_, ?_, h.content_stop, h.below_start⟩
          · rw [List.cons_append, ← h.eq]
          · rw [List.count_cons_of_ne hc, ← h.line_eq]
          · obtain ⟨body, rfl⟩ := habove
            exact Or.inr ⟨c :: body, rfl⟩

/-! ### Walking over lines -/

namespace Position

theorem line_after (p : Position) (cs : List Char) :
    (p.after cs).line = p.line + cs.count '\n' := by
  induction cs generalizing p with
  | nil => rfl
  | cons c cs ih =>
      rw [after_cons, ih, advance]
      by_cases hc : c = '\n'
      · subst hc
        rw [if_pos rfl, List.count_cons_self]
        simp only
        omega
      · rw [if_neg hc, List.count_cons_of_ne hc]

/-- In a line every character takes a column. -/
theorem column_after_of_not_mem (p : Position) {left : List Char} (h : '\n' ∉ left) :
    (p.after left).column = p.column + left.length := by
  induction left generalizing p with
  | nil => rfl
  | cons c left ih =>
      obtain ⟨hc, hleft⟩ := not_or.1 (mt List.mem_cons.2 h)
      rw [after_cons, ih _ hleft, advance, if_neg (Ne.symm hc), List.length_cons]
      simp only
      omega

/-- A line starts in column one. -/
theorem column_after_above {above : List Char} (h : above = [] ∨ ∃ body, above = body ++ ['\n']) :
    (start.after above).column = 1 := by
  rcases h with rfl | ⟨body, rfl⟩
  · rfl
  · rw [after_append, after_cons, after_nil, advance, if_pos rfl]

/-- The place in the line that a part of the text ends in. -/
theorem after_above_left {above left : List Char}
    (ha : above = [] ∨ ∃ body, above = body ++ ['\n']) (hl : '\n' ∉ left) :
    (start.after (above ++ left)).line = above.count '\n' + 1 ∧
      (start.after (above ++ left)).column = left.length + 1 := by
  constructor
  · rw [line_after, List.count_append, List.count_eq_zero_of_not_mem hl, Nat.add_zero, Nat.add_comm]
    rfl
  · rw [after_append, column_after_of_not_mem _ hl, column_after_above ha, Nat.add_comm]

end Position

/-! ### Rounding an offset up -/

/-- Every boundary up to which a text is covered is the end of what is covered. -/
theorem coverBytes_append (front back : List Char) :
    coverBytes (utf8Length front) (front ++ back) = front := by
  induction front with
  | nil => simp
  | cons c front ih =>
      have := c.utf8Size_pos
      rw [List.cons_append, coverBytes, utf8Length_cons, if_neg (by omega), Nat.add_sub_cancel_left,
        ih]

theorem coverBytes_of_isPrefix {front cs : List Char} (h : front <+: cs) :
    coverBytes (utf8Length front) cs = front := by
  obtain ⟨back, rfl⟩ := h
  exact coverBytes_append front back

/-- The characters that start before an offset reach it, unless the text ends before. -/
theorem le_utf8Length_coverBytes (n : Nat) (cs : List Char) :
    min n (utf8Length cs) ≤ utf8Length (coverBytes n cs) := by
  induction cs generalizing n with
  | nil => simp
  | cons c cs ih =>
      rw [coverBytes]
      split
      · omega
      · have := ih (n - c.utf8Size)
        simp only [utf8Length_cons]
        omega

/-- A part of a text that reaches an offset holds all characters that start before it. -/
theorem utf8Length_coverBytes_le {n : Nat} {front cs : List Char} (h : front <+: cs)
    (hn : min n (utf8Length cs) ≤ utf8Length front) :
    utf8Length (coverBytes n cs) ≤ utf8Length front := by
  induction cs generalizing n front with
  | nil => simp
  | cons c cs ih =>
      have hc := c.utf8Size_pos
      rw [coverBytes]
      split
      · simp
      · cases front with
        | nil =>
            simp only [utf8Length_cons, utf8Length_nil] at hn
            omega
        | cons d front =>
            obtain ⟨rfl, hfront⟩ := List.cons_prefix_cons.1 h
            simp only [utf8Length_cons] at hn ⊢
            exact Nat.add_le_add_left (ih hfront (by omega)) _

/-- The characters that start before an offset end at the smallest boundary that is not smaller. -/
theorem isLeast_coverBytes (cs : List Char) (n : Nat) :
    IsLeast {b | IsBoundary cs b ∧ min n (utf8Length cs) ≤ b} (utf8Length (coverBytes n cs)) := by
  constructor
  · exact ⟨⟨_, coverBytes_prefix n cs, rfl⟩, le_utf8Length_coverBytes n cs⟩
  · rintro b ⟨⟨front, hfront, rfl⟩, hb⟩
    exact utf8Length_coverBytes_le hfront hb

/-! ### The offset of a place -/

/-- A line and column without an offset: one of them is zero, or the text has fewer lines. -/
theorem offsetAt_eq_error_iff (text : List Char) (line column : Nat) :
    (∃ e, offsetAt text line column = .error e) ↔
      line = 0 ∨ column = 0 ∨ text.count '\n' + 1 < line := by
  rw [offsetAt]
  by_cases hzero : line = 0 ∨ column = 0
  · rw [if_pos hzero, ← or_assoc]
    exact iff_of_true ⟨_, rfl⟩ (Or.inl hzero)
  · rw [if_neg hzero, ← or_assoc, or_iff_right hzero, ← length_lines]
    cases hl : (lines text)[line - 1]? with
    | none =>
        rw [List.getElem?_eq_none_iff] at hl
        exact iff_of_true ⟨_, rfl⟩ (by omega)
    | some content =>
        obtain ⟨hlt, -⟩ := List.getElem?_eq_some_iff.1 hl
        exact iff_of_false (by simp) (by omega)

/-- Behind the last line the error names the number of lines. -/
theorem offsetAt_past_last {text : List Char} {line column : Nat} (hline : 0 < line)
    (hcolumn : 0 < column) (hpast : text.count '\n' + 1 < line) :
    offsetAt text line column = .error (.pastLastLine line (text.count '\n' + 1)) := by
  have hnone : (lines text)[line - 1]? = none := by
    rw [List.getElem?_eq_none_iff, length_lines]
    omega
  rw [offsetAt, if_neg (by omega), hnone, length_lines]

section

variable {text above content below : List Char} {line : Nat}

/-- The offset of a column of a line. -/
theorem offsetAt_of_isLine (h : IsLine text line above content below) {column : Nat}
    (hcolumn : 0 < column) :
    offsetAt text line column = .ok (utf8Length (above ++ content.take (column - 1))) := by
  obtain ⟨hcontent, habove⟩ := h.lines_eq
  have hline := h.line_eq
  rw [offsetAt, if_neg (by omega), hcontent]
  simp only
  rw [← List.sum_eq_foldr, habove, utf8Length_append]

/-- The text in front of and behind a character in a line. -/
theorem IsLine.eq_take_drop (h : IsLine text line above content below) (k : Nat) :
    text = (above ++ content.take k) ++ (content.drop k ++ below) := by
  rw [List.append_assoc, ← List.append_assoc (content.take k), List.take_append_drop, h.eq]

/-- The characters of a line start at boundaries. -/
theorem IsLine.isBoundary (h : IsLine text line above content below) (k : Nat) :
    IsBoundary text (utf8Length (above ++ content.take k)) := by
  conv_lhs => rw [h.eq_take_drop k]
  exact isBoundary_append _ _

/-- The place of a character in a line, or of the end of the line. -/
theorem ofOffset_of_isLine (h : IsLine text line above content below) (k : Nat) :
    Position.ofOffset text (utf8Length (above ++ content.take k))
      = ⟨line, min k content.length + 1, utf8Length (above ++ content.take k)⟩ := by
  have htext := h.eq_take_drop k
  have hmem : '\n' ∉ content.take k := fun hm => h.content_stop (List.mem_of_mem_take hm)
  obtain ⟨hline, hcolumn⟩ := Position.after_above_left h.above_stop hmem
  have hcover : coverBytes (utf8Length (above ++ content.take k)) text = above ++ content.take k :=
    coverBytes_of_isPrefix ⟨_, htext.symm⟩
  rw [Position.ofOffset, hcover, hline, hcolumn, ← h.line_eq, List.length_take,
    min_eq_left (h.isBoundary k).le]

end

/-- The line and column of an offset tell the lines above it from what is left of it in its line. -/
theorem exists_ofOffset (text : List Char) (n : Nat) :
    ∃ above left back, coverBytes n text = above ++ left ∧ text = above ++ (left ++ back) ∧
      (above = [] ∨ ∃ body, above = body ++ ['\n']) ∧ '\n' ∉ left ∧
      (Position.ofOffset text n).line = above.count '\n' + 1 ∧
      (Position.ofOffset text n).column = left.length + 1 := by
  obtain ⟨above, left, hfront, ha, hl⟩ := exists_last_line (coverBytes n text)
  obtain ⟨back, hback⟩ := coverBytes_prefix n text
  obtain ⟨hline, hcolumn⟩ := Position.after_above_left ha hl
  rw [← hfront] at hline hcolumn
  exact ⟨above, left, back, hfront, by rw [← List.append_assoc, ← hfront, hback], ha, hl, hline,
    hcolumn⟩

/-- A line and a column are at most one more than there are characters. -/
theorem ofOffset_le (text : List Char) (n : Nat) :
    (Position.ofOffset text n).line ≤ text.length + 1 ∧
      (Position.ofOffset text n).column ≤ text.length + 1 := by
  obtain ⟨above, left, back, -, htext, -, -, hline, hcolumn⟩ := exists_ofOffset text n
  have hlength := congrArg List.length htext
  have hcount := List.count_le_length (a := '\n') (l := above)
  simp only [List.length_append] at hlength
  omega

/-- The line and column of an offset lead behind the characters that start before it. -/
theorem offsetAt_ofOffset (text : List Char) (n : Nat) :
    offsetAt text (Position.ofOffset text n).line (Position.ofOffset text n).column
      = .ok (utf8Length (coverBytes n text)) := by
  obtain ⟨above, left, back, hfront, htext, ha, hl, hline, hcolumn⟩ := exists_ofOffset text n
  have hcol : 0 < left.length + 1 := Nat.succ_pos _
  rw [hline, hcolumn, offsetAt_of_isLine (isLine_of_append htext ha hl) hcol,
    Nat.add_sub_cancel, List.take_left, hfront]

/-! ### Both ways -/

/-- **Line and column convert to an offset and back.**

The line and the column of an offset are at most one more than there are characters.  They have an
offset, and this is the smallest boundary that is not smaller than the offset, clamped to the text,
that they came from; so a boundary comes back itself.

A line and column have no offset exactly if one of them is zero or the text has fewer lines, and in
the last case the error names the number of lines.  Otherwise the line is a line of the text and the
offset is a boundary on it, whose place is that line and the column, or the end of the line if this
comes first. -/
theorem place_round_trip (text : List Char) :
    (∀ n, (Position.ofOffset text n).line ≤ text.length + 1 ∧
      (Position.ofOffset text n).column ≤ text.length + 1 ∧
      (∃ b, offsetAt text (Position.ofOffset text n).line (Position.ofOffset text n).column = .ok b ∧
        IsLeast {b | IsBoundary text b ∧ min n (utf8Length text) ≤ b} b) ∧
      (IsBoundary text n →
        offsetAt text (Position.ofOffset text n).line (Position.ofOffset text n).column = .ok n)) ∧
    (∀ line column,
      ((∃ e, offsetAt text line column = .error e) ↔
        line = 0 ∨ column = 0 ∨ text.count '\n' + 1 < line) ∧
      (0 < line ∧ 0 < column ∧ text.count '\n' + 1 < line →
        offsetAt text line column = .error (.pastLastLine line (text.count '\n' + 1))) ∧
      (0 < line ∧ 0 < column ∧ line ≤ text.count '\n' + 1 →
        ∃ above content below n, IsLine text line above content below ∧
          offsetAt text line column = .ok n ∧ IsBoundary text n ∧
          utf8Length above ≤ n ∧ n ≤ utf8Length above + utf8Length content ∧
          Position.ofOffset text n = ⟨line, min column (content.length + 1), n⟩)) := by
  refine ⟨fun n => ⟨(ofOffset_le text n).1, (ofOffset_le text n).2, ?_, ?_⟩,
    fun line column => ⟨?_, ?_, ?_⟩⟩
  · exact ⟨_, offsetAt_ofOffset text n, isLeast_coverBytes text n⟩
  · rintro ⟨front, hfront, rfl⟩
    rw [offsetAt_ofOffset, coverBytes_of_isPrefix hfront]
  · exact offsetAt_eq_error_iff text line column
  · rintro ⟨hline, hcolumn, hpast⟩
    exact offsetAt_past_last hline hcolumn hpast
  · rintro ⟨hline, hcolumn, hle⟩
    obtain ⟨above, content, below, h⟩ := exists_isLine hline hle
    have hwhole := congrArg utf8Length (List.take_append_drop (column - 1) content)
    rw [utf8Length_append] at hwhole
    have hlength : utf8Length (above ++ content.take (column - 1))
        = utf8Length above + utf8Length (content.take (column - 1)) := utf8Length_append _ _
    refine ⟨above, content, below, _, h, offsetAt_of_isLine h hcolumn, h.isBoundary _, by omega,
      by omega, ?_⟩
    rw [ofOffset_of_isLine h]
    congr 1
    omega

end Caret
