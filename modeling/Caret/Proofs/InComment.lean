/-
**Cursors in comments.**

The classifier sees tokens and no comments.  A cursor in a comment stands behind the tokens in front of the
comment, farther away from the last of them than that token is long, and before all others.  Behind a
literal, an identifier and the mark of the end of a line nothing is recognised there; but a period, a comma
or an opening brace opens a name, and goes on to do so in the comment behind it.  A keyword that opens a
declaration counts as the name that is being typed, so what stands in front of it decides.

Main definitions:

* `Caret.Kind.opensName` — the tokens behind which a name is completed;
* `Caret.AwaitsName` — do the tokens in front of a gap await a name in it?
* `Caret.Comment.Holds` — the cursor stands in a comment.

Main results:

* `Caret.Covers.exists_split` — a gap divides the lexemes into those in front of it and those behind;
* `Caret.Context.kind_ofTrail_eq_unknown_iff` — what is recognised behind the end of a token;
* `Caret.kind_in_comment_eq_unknown_iff` — **in a comment nothing is recognised, unless the tokens in front
  of it await a name**;
* `Caret.classify_in_comment_selector` — in a comment behind a period a name is completed.
-/

import Caret.Proofs.Restart
import Caret.Proofs.TokensBefore
import Caret.Proofs.Typed

set_option relaxedAutoImplicit false
set_option autoImplicit false

namespace Caret

/-! ### The lexemes on both sides of a gap -/

section

variable {text : List Char} {start : Nat} {ts : List Lexeme}

/-- A gap divides the lexemes into those that stop in front of it and those that start behind it. -/
theorem Covers.exists_split {gap : Nat × Nat} (h : Covers text start ts) (hstart : IsBoundary text start)
    (hgap : gap ∈ gapBounds start (utf8Length text) ts) :
    ∃ before after, ts = before ++ after ∧ (∀ t ∈ before, t.stop.offset ≤ gap.1) ∧
      (∀ t ∈ after, gap.2 ≤ t.start.offset) ∧ start ≤ gap.1 ∧ gap.1 ≤ gap.2 ∧ IsBoundary text gap.1 := by
  induction ts generalizing start with
  | nil =>
      obtain rfl : gap = (start, utf8Length text) := by simpa [gapBounds] using hgap
      exact ⟨[], [], rfl, by simp, by simp, le_rfl, hstart.le, hstart⟩
  | cons t ts ih =>
      obtain ⟨hle, hspan, -⟩ := h.ordered t List.mem_cons_self
      rcases List.mem_cons.1 hgap with rfl | hgap
      · refine ⟨[], t :: ts, rfl, by simp, fun u hu => ?_, le_rfl, hle, hstart⟩
        rcases List.mem_cons.1 hu with rfl | hu
        · exact le_rfl
        · exact (List.rel_of_pairwise_cons h.pairwise hu).2.le
      · obtain ⟨before, after, rfl, hbefore, hafter, hstop, hgap, hbound⟩ :=
          ih h.tail (h.boundary t List.mem_cons_self).2 hgap
        refine ⟨t :: before, after, rfl, fun u hu => ?_, hafter, by omega, hgap, hbound⟩
        rcases List.mem_cons.1 hu with rfl | hu
        · exact hstop
        · exact hbefore u hu

/-- A comment divides the lexemes of a text into those that stop in front of it, or where it opens, and
those that do not start before its end.  Behind its opening mark there is a boundary. -/
theorem SkipsComment.exists_split {offset : Nat} {m : Comment}
    (h : SkipsComment text (utf8Length (byteOrderMark text)) (Lexeme.ofText text) offset m) :
    ∃ before after, Lexeme.ofText text = before ++ after ∧ (∀ t ∈ before, t.stop.offset ≤ offset) ∧
      (∀ t ∈ after, offset + utf8Length m.text ≤ t.start.offset) ∧ IsBoundary text (offset + 2) := by
  obtain ⟨gap, hgap, front, back, hslice, -, -, -, rfl⟩ := h
  have hcovers := Lexer.covers_lexemes _ (Lexer.inText_ofText text)
  rw [offset_ofText] at hcovers
  obtain ⟨before, after, hsplit, hbefore, hafter, -, hle, hbound⟩ :=
    hcovers.exists_split ⟨_, byteOrderMark_prefix text, rfl⟩ hgap
  have htext : takeBytes gap.1 text ++ (front ++ (m.text ++ back)) <+: text := by
    rw [← hslice, takeBytes_append_slice hle]
    exact takeBytes_prefix _ _
  have hfront : utf8Length (takeBytes gap.1 text) = gap.1 := floorBoundary_of_isBoundary hbound
  have hlength := utf8Length_takeBytes_le gap.2 text
  rw [← takeBytes_append_slice hle, hslice] at hlength
  simp only [utf8Length_append, hfront] at hlength
  refine ⟨before, after, hsplit, fun t ht => ?_, fun t ht => ?_, ?_⟩
  · have := hbefore t ht
    omega
  · have := hafter t ht
    omega
  · obtain ⟨x, tail, hm, hx⟩ := m.exists_text
    refine ⟨takeBytes gap.1 text ++ (front ++ ['/', x]), ?_, ?_⟩
    · refine List.IsPrefix.trans ?_ htext
      simp [hm]
    · have htwo : utf8Length ['/', x] = 2 := by rcases hx with rfl | rfl <;> decide
      simp only [utf8Length_append, hfront, htwo]
      omega

end

/-! ### Behind the end of a token -/

/-- Is a name completed behind a token of this kind? -/
def Kind.opensName : Kind → Bool
  | .op .period => true
  | .op .comma => true
  | .op .lbrace => true
  | _ => false

/-- Do the tokens in front of a gap, nearest first, await a name in the gap?  They do behind a token that
opens a name, and behind a keyword that is taken for the name that such a token opens. -/
def AwaitsName : List Token → Prop
  | [] => False
  | t :: before => t.kind.opensName = true ∨
      (∃ k ∈ Keyword.declaring, t.kind = .keyword k) ∧ ∃ u ∈ before.head?, u.kind.opensName = true

namespace Context

/-- Something is recognised behind the tokens that open a name, and behind no others. -/
theorem kind_behind_eq_unknown_iff (t : Trail) (typed : String) :
    (behind t typed).kind = .unknown ↔ ¬ t.kind.opensName = true := by
  unfold behind Kind.opensName
  split <;> simp_all [kind]

variable {before after : List Token} {t : Token} {distance : Nat}

/-- Behind the end of a token something is recognised if a name is awaited there. -/
theorem kind_ofTrail_eq_unknown_iff (hlen : utf8Length t.text.toList < distance) :
    (ofTrail ⟨before, t, after⟩ distance).kind = .unknown ↔ ¬ AwaitsName (t :: before) := by
  by_cases hkeyword : ∃ k ∈ Keyword.declaring, t.kind = .keyword k
  · obtain ⟨k, hmem, hk⟩ := hkeyword
    have hawaits : AwaitsName (t :: before) ↔ ∃ u ∈ before.head?, u.kind.opensName = true := by
      simp [AwaitsName, hk, Kind.opensName, hmem]
    rw [ofTrail_keyword hk hmem, hawaits]
    cases before with
    | nil => simp [kind]
    | cons landing rest =>
        rw [kind_behind_eq_unknown_iff]
        simp [Trail.kind]
  · have hawaits : AwaitsName (t :: before) ↔ t.kind.opensName = true := by
      simp [AwaitsName, hkeyword]
    rw [hawaits]
    by_cases hmay : MayEndLine t.kind
    · rw [ofTrail_of_mayEndLine hmay hlen]
      refine iff_of_true rfl ((kind_behind_eq_unknown_iff ⟨before, t, after⟩ "").1 ?_)
      rw [behind_of_mayEndLine (t := ⟨before, t, after⟩) hmay]
      rfl
    · have hstring : t.kind ≠ .string := fun hk => hmay (by rw [hk]; decide)
      have hident : t.kind ≠ .ident := fun hk => hmay (by rw [hk]; decide)
      rw [ofTrail_of_ne hstring hident (by simpa using hkeyword), kind_behind_eq_unknown_iff]
      rfl

end Context

/-! ### In a comment -/

/-- The cursor stands in the comment `m` that opens at the offset: behind its opening mark, and not behind
its end; where the comment is closed by a mark, it ends behind that mark, and the cursor stands before. -/
def Comment.Holds (m : Comment) (offset cursor : Nat) : Prop :=
  offset + 2 ≤ cursor ∧
    match m with
    | .line _ | .unclosed _ => cursor ≤ offset + utf8Length m.text
    | .block _ => cursor < offset + utf8Length m.text

theorem Comment.Holds.le {m : Comment} {offset cursor : Nat} (h : m.Holds offset cursor) :
    cursor ≤ offset + utf8Length m.text := by
  cases m with
  | line body => exact h.2
  | block body => exact h.2.le
  | unclosed body => exact h.2

section

variable {source : String} {offset cursor : Nat} {m : Comment}

/-- Where an offset divides the lexemes, the first part is what starts before it. -/
theorem lexemesBefore_of_split {text : List Char} {before after : List Lexeme}
    (h : Lexeme.ofText text = before ++ after) (hbefore : ∀ t ∈ before, t.start.offset < offset)
    (hafter : ∀ t ∈ after, offset ≤ t.start.offset) : lexemesBefore text offset = before := by
  rw [lexemesBefore, h, List.filter_append, List.filter_eq_self.2 (by simpa using hbefore),
    List.filter_eq_nil_iff.2 (by simpa using hafter), List.append_nil]

/-- A lexeme does not stop before it starts, and its token is at most one byte longer: the newline of a
mark that stands for the end of a line. -/
theorem stop_of_mem_ofText {text : List Char} {t : Lexeme} (ht : t ∈ Lexeme.ofText text) :
    t.start.offset ≤ t.stop.offset ∧
      t.start.offset + utf8Length t.token.text.toList ≤ t.stop.offset + 1 := by
  have hle := ((Lexer.covers_lexemes _ (Lexer.inText_ofText text)).ordered t ht).2.1
  refine ⟨hle, ?_⟩
  by_cases hmark : t.token = .lineEnd
  · have hone : utf8Length Token.lineEnd.text.toList = 1 := by decide
    rw [hmark, hone]
    omega
  · obtain ⟨front, span, rest, -, hr⟩ := Lexer.readAt_of_mem (Lexer.inText_ofText _) ht hmark
    exact (Nat.le_of_eq hr.stop_eq.symm).trans (Nat.le_succ _)

/-- **In a comment nothing is recognised, unless the tokens in front of it await a name.**  The cursor is
behind the opening mark of a comment that is skipped, and not past its end. -/
theorem kind_in_comment_eq_unknown_iff
    (hm : SkipsComment source.toList (utf8Length (byteOrderMark source.toList))
      (Lexeme.ofText source.toList) offset m)
    (hcursor : m.Holds offset cursor) :
    (classify source cursor).kind = .unknown ↔
      ¬ AwaitsName ((lexemesBefore source.toList (offset + 1)).map (·.token)).reverse := by
  obtain ⟨before, after, hsplit, hbefore, hafter, hbound⟩ := hm.exists_split
  have htwo : offset + 2 ≤ floorBoundary source.toList cursor := by
    have := floorBoundary_mono source.toList hcursor.1
    rwa [floorBoundary_of_isBoundary hbound] at this
  have hend : floorBoundary source.toList cursor ≤ offset + utf8Length m.text :=
    (utf8Length_takeBytes_le _ _).trans hcursor.le
  have hmem : ∀ t ∈ before, t ∈ Lexeme.ofText source.toList := fun t ht => hsplit ▸ by simp [ht]
  have hstart : ∀ t ∈ before, t.start.offset ≤ offset := fun t ht =>
    (stop_of_mem_ofText (hmem t ht)).1.trans (hbefore t ht)
  have hunseen : ∀ t ∈ after, floorBoundary source.toList cursor ≤ t.start.offset :=
    fun t ht => hend.trans (hafter t ht)
  rw [lexemesBefore_of_split hsplit (fun t ht => Nat.lt_succ_of_le (hstart t ht))
    fun t ht => by have := hafter t ht; omega]
  rcases List.eq_nil_or_concat' before with rfl | ⟨front, t, rfl⟩
  · rw [classify_of_none rfl (by rw [hsplit]; exact hunseen)]
    exact iff_of_true rfl (by simp [AwaitsName])
  · have hlast : LastBefore (Lexeme.ofText source.toList) (floorBoundary source.toList cursor) front t
        after := by
      refine ⟨by simpa using hsplit, ?_, hunseen⟩
      have := hstart t (by simp)
      omega
    have hstop := hbefore t (by simp)
    have hlen := (stop_of_mem_ofText (hmem t (by simp))).2
    rw [classify_of_lastBefore rfl hlast, Context.kind_ofTrail_eq_unknown_iff (by omega)]
    simp

/-- A block comment right behind a keyword that opens a declaration: the cursor is in it, inside of a
letter of two bytes, and the keyword alone awaits no name. -/
theorem kind_in_comment_eq_unknown_keyword :
    SkipsComment "type/*é*/x".toList (utf8Length (byteOrderMark "type/*é*/x".toList))
        (Lexeme.ofText "type/*é*/x".toList) 4 (.block ['é']) ∧
      (Comment.block ['é']).Holds 4 7 ∧ (classify "type/*é*/x" 7).kind = .unknown := by
  have hlexemes : Lexeme.ofText "type/*é*/x".toList =
      [⟨⟨.keyword .type_, "type"⟩, ⟨1, 1, 0⟩, ⟨1, 5, 4⟩⟩, ⟨⟨.ident, "x"⟩, ⟨1, 10, 10⟩, ⟨1, 11, 11⟩⟩,
        ⟨.lineEnd, ⟨1, 11, 11⟩, ⟨1, 11, 11⟩⟩] :=
    calc Lexeme.ofText "type/*é*/x".toList
        = _ :: Lexer.lexemes ⟨"/*é*/x".toList, ⟨1, 5, 4⟩, false⟩ :=
          Lexer.lexemes_of_step (Lexer.step_of_next (by decide))
      _ = _ :: _ :: Lexer.lexemes ⟨[], ⟨1, 11, 11⟩, true⟩ :=
          congrArg _ (Lexer.lexemes_of_step (Lexer.step_of_next (by decide)))
      _ = _ :: _ :: _ :: Lexer.lexemes ⟨[], ⟨1, 11, 11⟩, false⟩ :=
          congrArg _ (congrArg _ (Lexer.lexemes_of_step (Lexer.step_of_next (by decide))))
      _ = _ := congrArg _ (congrArg _ (congrArg _ (Lexer.lexemes_of_done ⟨rfl, Gap.nil⟩)))
  have hm : SkipsComment "type/*é*/x".toList (utf8Length (byteOrderMark "type/*é*/x".toList))
      (Lexeme.ofText "type/*é*/x".toList) 4 (.block ['é']) := by
    rw [hlexemes]
    have hclose : ¬ ['*', '/'] <:+: ['é'] := by decide
    exact ⟨(4, 10), by decide, [], [], by decide, Gap.nil, hclose, Gap.nil, by decide⟩
  have hcursor : (Comment.block ['é']).Holds 4 7 := ⟨by decide, by decide⟩
  refine ⟨hm, hcursor, (kind_in_comment_eq_unknown_iff hm hcursor).2 ?_⟩
  rw [lexemesBefore, hlexemes]
  simp [AwaitsName, Kind.opensName]

/-- A comment behind a period: the cursor is in it, and a name is completed there. -/
theorem classify_in_comment_selector :
    SkipsComment "x. // c".toList (utf8Length (byteOrderMark "x. // c".toList))
        (Lexeme.ofText "x. // c".toList) 3 (.line [' ', 'c']) ∧
      (Comment.line [' ', 'c']).Holds 3 6 ∧
        classify "x. // c" 6 = .selector (some "x") "" ∧ (classify "x. // c" 6).kind ≠ .unknown := by
  have hlexemes : Lexeme.ofText "x. // c".toList =
      [⟨⟨.ident, "x"⟩, ⟨1, 1, 0⟩, ⟨1, 2, 1⟩⟩, ⟨⟨.op .period, "."⟩, ⟨1, 2, 1⟩, ⟨1, 3, 2⟩⟩] :=
    calc Lexeme.ofText "x. // c".toList
        = _ :: Lexer.lexemes ⟨". // c".toList, ⟨1, 2, 1⟩, true⟩ :=
          Lexer.lexemes_of_step (Lexer.step_of_next (by decide))
      _ = _ :: _ :: Lexer.lexemes ⟨" // c".toList, ⟨1, 3, 2⟩, false⟩ :=
          congrArg _ (Lexer.lexemes_of_step (Lexer.step_of_next (by decide)))
      _ = _ := congrArg _ (congrArg _ (Lexer.lexemes_of_done
          ⟨rfl, Trivia.gap_of_rest_eq_nil (by decide)⟩))
  have hm : SkipsComment "x. // c".toList (utf8Length (byteOrderMark "x. // c".toList))
      (Lexeme.ofText "x. // c".toList) 3 (.line [' ', 'c']) := by
    rw [hlexemes]
    exact ⟨(2, 7), by decide, [' '], [], by decide, Gap.space (by decide) Gap.nil,
      ⟨by decide, Or.inr ⟨rfl, by decide⟩⟩, Gap.nil, by decide⟩
  have hlast : LastBefore (Lexeme.ofText "x. // c".toList) 6 [_] _ [] := ⟨hlexemes, by decide, by simp⟩
  have hwalk : operand (.op .period) [⟨.ident, "x"⟩] = ([⟨.ident, "x"⟩], []) := by
    simp [operand, Step.ofPair?]
  have hselector : classify "x. // c" 6 = .selector (some "x") "" := by
    rw [classify_of_lastBefore (by decide) hlast]
    change Context.behind ⟨_, ⟨.op .period, "."⟩, []⟩ "" = _
    rw [Context.behind, Trail.kind, Trail.expression_fst]
    simp only [Trail.kind, List.reverse_singleton, List.map_singleton, hwalk]
    decide
  exact ⟨hm, ⟨by decide, by decide⟩, hselector, by rw [hselector]; decide⟩

end

end Caret
