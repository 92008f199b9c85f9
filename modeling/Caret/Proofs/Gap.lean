/-
**What a gap consists of.**

The text skipped between two tokens is a sequence of blanks, newlines and comments.  This module
says so without reference to the pass that skips it: a comment is given by its body, and a gap by
the pieces it is put together from.  The pass over the front of a text then cuts off a gap in this
sense, and the pass over a gap that stands in front of more text skips it and goes on behind it.

Main definitions:

* `Caret.Comment`, `Caret.Comment.text` — a line comment, a block comment, or a block comment that
  is never closed;
* `Caret.Comment.Proper` — the comment ends where it has to, for the text that follows it;
* `Caret.Gap` — a text made of blanks, newlines and comments only.

Main results:

* `Caret.Trivia.cut_comment` — the pass takes a proper comment whole;
* `Caret.Trivia.exists_comment` — where a comment opens, a proper comment stands;
* `Caret.Trivia.gap_cut`, `Caret.Trivia.gap_of_rest_eq_nil` — the pass cuts off a gap, and leaves
  nothing of a text only if it is one;
* `Caret.Trivia.cut_gap_append` — a gap in front of more text is skipped, and nothing else changes.
-/

import Caret.Trivia

set_option relaxedAutoImplicit false
set_option autoImplicit false

namespace Caret

/-! ### Comments -/

/-- A comment, given by the text behind its opening mark. -/
inductive Comment where
  /-- A line comment, without the newline that ends it. -/
  | line (body : List Char)
  /-- A block comment with its closing mark. -/
  | block (body : List Char)
  /-- A block comment that is never closed. -/
  | unclosed (body : List Char)
  deriving DecidableEq, Repr

namespace Comment

/-- A comment as it stands in the source. -/
def text : Comment → List Char
  | line body => '/' :: '/' :: body
  | block body => '/' :: '*' :: body ++ ['*', '/']
  | unclosed body => '/' :: '*' :: body

/-- Does a comment end where it has to, if `rest` follows it in its gap?  A line comment runs up to
a newline and a block comment through the first closing mark; only where the text ends behind the
gap, as `atEnd` says, the comment may do without them. -/
def Proper (atEnd : Prop) (rest : List Char) : Comment → Prop
  | line body => '\n' ∉ body ∧ (rest.head? = some '\n' ∨ rest = [] ∧ atEnd)
  | block body => ¬ ['*', '/'] <:+: body
  | unclosed body => ¬ ['*', '/'] <:+: body ∧ rest = [] ∧ atEnd

theorem exists_text (m : Comment) :
    ∃ x tail, m.text = '/' :: x :: tail ∧ (x = '/' ∨ x = '*') := by
  cases m with
  | line body => exact ⟨'/', body, rfl, Or.inl rfl⟩
  | block body => exact ⟨'*', body ++ ['*', '/'], rfl, Or.inr rfl⟩
  | unclosed body => exact ⟨'*', body, rfl, Or.inr rfl⟩

theorem two_le_length_text (m : Comment) : 2 ≤ m.text.length := by
  obtain ⟨x, tail, h, -⟩ := m.exists_text
  simp [h]

end Comment

/-! ### Gaps -/

/-- A text made of blanks, newlines and comments only.  The text may end behind it, as `atEnd`
says, and then its last comment need not be ended by anything else. -/
inductive Gap (atEnd : Prop) : List Char → Prop
  | nil : Gap atEnd []
  | space {c : Char} {cs : List Char} : isSpace c = true → Gap atEnd cs → Gap atEnd (c :: cs)
  | comment {m : Comment} {cs : List Char} : m.Proper atEnd cs → Gap atEnd cs →
      Gap atEnd (m.text ++ cs)

theorem Gap.of_blanks {cs : List Char} (h : ∀ c ∈ cs, isBlank c = true) : Gap False cs := by
  induction cs with
  | nil => exact Gap.nil
  | cons c cs ih =>
      refine Gap.space ?_ (ih fun d hd => h d (List.mem_cons_of_mem c hd))
      simp [isSpace, h c List.mem_cons_self]

theorem Comment.Proper.mono {p q : Prop} {rest : List Char} {m : Comment} (hpq : p → q)
    (h : m.Proper p rest) : m.Proper q rest := by
  cases m with
  | line body => exact ⟨h.1, h.2.imp_right fun hr => ⟨hr.1, hpq hr.2⟩⟩
  | block body => exact h
  | unclosed body => exact ⟨h.1, h.2.1, hpq h.2.2⟩

theorem Gap.mono {p q : Prop} {cs : List Char} (hpq : p → q) (h : Gap p cs) : Gap q cs := by
  induction h with
  | nil => exact Gap.nil
  | space hc _ ih => exact Gap.space hc ih
  | comment hm _ ih => exact Gap.comment (hm.mono hpq) ih

namespace Trivia

/-! ### The pass over comments -/

@[simp] theorem cut_nil : cut [] = .nothing [] := cutFrom_nil .between

theorem cut_space {c : Char} (cs : List Char) (h : isSpace c = true) :
    cut (c :: cs) = (cut cs).keep [c] := by
  have hc : c ≠ '/' := by rintro rfl; exact absurd h (by decide)
  rw [cut, cutFrom, if_pos h, cut]
  · rintro _ rfl; exact absurd rfl hc
  · rintro _ rfl; exact absurd rfl hc

/-- A text that neither starts with a blank or a newline nor opens a comment has no gap in front. -/
theorem cut_stop {c : Char} {cs : List Char} (hc : isSpace c = false)
    (hm : c = '/' → cs.head? ≠ some '/' ∧ cs.head? ≠ some '*') :
    cut (c :: cs) = .nothing (c :: cs) := by
  rw [cut, cutFrom, if_neg (by simp [hc])]
  · rintro ds rfl rfl; exact (hm rfl).1 rfl
  · rintro ds rfl rfl; exact (hm rfl).2 rfl

theorem cutFrom_lineComment_newline {body : List Char} (cs : List Char) (h : '\n' ∉ body) :
    cutFrom .lineComment (body ++ '\n' :: cs) = (cut ('\n' :: cs)).keep body := by
  induction body with
  | nil =>
      rw [List.nil_append, cutFrom, if_pos rfl, cut_space cs (by decide)]
      rfl
  | cons c body ih =>
      obtain ⟨hc, hb⟩ := not_or.1 (fun h' => h (List.mem_cons.2 h'))
      rw [List.cons_append, cutFrom, if_neg (Ne.symm hc), ih hb]
      rfl

theorem cutFrom_lineComment_end {body : List Char} (h : '\n' ∉ body) :
    cutFrom .lineComment body = ⟨body, []⟩ := by
  induction body with
  | nil => rw [cutFrom_nil, Cut.nothing]
  | cons c body ih =>
      obtain ⟨hc, hb⟩ := not_or.1 (fun h' => h (List.mem_cons.2 h'))
      rw [cutFrom, if_neg (Ne.symm hc), ih hb]
      rfl

theorem not_infix_of_cons {c : Char} {body : List Char} (h : ¬ ['*', '/'] <:+: c :: body) :
    ¬ ['*', '/'] <:+: body :=
  fun h' => h (List.infix_cons h')

theorem cutFrom_blockComment_close {body : List Char} (cs : List Char)
    (h : ¬ ['*', '/'] <:+: body) :
    cutFrom .blockComment (body ++ '*' :: '/' :: cs) = (cut cs).keep (body ++ ['*', '/']) := by
  induction body with
  | nil => rw [List.nil_append, cutFrom]; rfl
  | cons c body ih =>
      rw [List.cons_append, cutFrom, ih (not_infix_of_cons h)]
      · rfl
      · rintro ds rfl hds
        -- the body would hold a closing mark, at its front
        cases body with
        | nil => simp at hds
        | cons d body =>
            obtain rfl : d = '/' := (List.cons.inj hds).1
            exact h ⟨[], body, rfl⟩

theorem cutFrom_blockComment_end {body : List Char} (h : ¬ ['*', '/'] <:+: body) :
    cutFrom .blockComment body = ⟨body, []⟩ := by
  induction body with
  | nil => rw [cutFrom_nil, Cut.nothing]
  | cons c body ih =>
      rw [cutFrom, ih (not_infix_of_cons h)]
      · rfl
      · rintro ds rfl rfl
        exact h ⟨[], ds, rfl⟩

/-- The pass takes a proper comment whole and goes on behind it. -/
theorem cut_comment {m : Comment} {rest : List Char} (h : m.Proper (rest = []) rest) :
    cut (m.text ++ rest) = (cut rest).keep m.text := by
  cases m with
  | line body =>
      have hopen : cut ('/' :: '/' :: (body ++ rest)) =
          (cutFrom .lineComment (body ++ rest)).keep ['/', '/'] := by rw [cut, cutFrom]
      rw [Comment.text, List.cons_append, List.cons_append, hopen]
      rcases h with ⟨hb, hr | ⟨rfl, -⟩⟩
      · cases rest with
        | nil => simp at hr
        | cons c rest =>
            obtain rfl : c = '\n' := by simpa using hr
            rw [cutFrom_lineComment_newline rest hb]
            rfl
      · rw [List.append_nil, cutFrom_lineComment_end hb, cut_nil]
        simp [Cut.keep]
  | block body =>
      have hopen : cut ('/' :: '*' :: (body ++ '*' :: '/' :: rest)) =
          (cutFrom .blockComment (body ++ '*' :: '/' :: rest)).keep ['/', '*'] := by
        rw [cut, cutFrom]
      have htext : (Comment.block body).text ++ rest
          = '/' :: '*' :: (body ++ '*' :: '/' :: rest) := by
        simp [Comment.text]
      rw [htext, hopen, cutFrom_blockComment_close rest h]
      rfl
  | unclosed body =>
      obtain ⟨hb, rfl, -⟩ := h
      have hopen : cut ('/' :: '*' :: body) = (cutFrom .blockComment body).keep ['/', '*'] := by
        rw [cut, cutFrom]
      rw [Comment.text, List.append_nil, hopen, cutFrom_blockComment_end hb, cut_nil]
      simp [Cut.keep]

/-! ### The pass cuts off a gap -/

/-- The opening mark of a comment starts the text. -/
def Opens (cs : List Char) : Prop := ∃ x tail, cs = '/' :: x :: tail ∧ (x = '/' ∨ x = '*')

/-- A text with a closing mark has a first one. -/
theorem exists_first_close {cs : List Char} (h : ['*', '/'] <:+: cs) :
    ∃ body rest, cs = body ++ '*' :: '/' :: rest ∧ ¬ ['*', '/'] <:+: body := by
  induction cs with
  | nil => simp at h
  | cons c cs ih =>
      rcases List.infix_cons_iff.1 h with ⟨rest, hpre⟩ | hin
      · exact ⟨[], rest, by simpa using hpre.symm, by simp⟩
      · by_cases hpre : ['*', '/'] <+: c :: cs
        · obtain ⟨rest, hrest⟩ := hpre
          exact ⟨[], rest, by simpa using hrest.symm, by simp⟩
        · obtain ⟨body, rest, rfl, hb⟩ := ih hin
          refine ⟨c :: body, rest, rfl, ?_⟩
          intro hi
          -- an earlier mark would stand at the front, or in the part that has none
          rcases List.infix_cons_iff.1 hi with ⟨t, ht⟩ | hi
          · exact hpre ⟨t ++ '*' :: '/' :: rest, by rw [← List.append_assoc, ht]; simp⟩
          · exact hb hi

/-- Where a comment opens, a proper comment stands. -/
theorem exists_comment {cs : List Char} (h : Opens cs) :
    ∃ (m : Comment) (rest : List Char), cs = m.text ++ rest ∧ m.Proper (rest = []) rest := by
  obtain ⟨x, tail, rfl, rfl | rfl⟩ := h
  · by_cases hn : '\n' ∈ tail
    · obtain ⟨body, rest, rfl, hb⟩ := List.eq_append_cons_of_mem hn
      exact ⟨.line body, '\n' :: rest, rfl, hb, Or.inl rfl⟩
    · exact ⟨.line tail, [], by simp [Comment.text], hn, Or.inr ⟨rfl, rfl⟩⟩
  · by_cases hc : ['*', '/'] <:+: tail
    · obtain ⟨body, rest, rfl, hb⟩ := exists_first_close hc
      exact ⟨.block body, rest, by simp [Comment.text], hb⟩
    · exact ⟨.unclosed tail, [], by simp [Comment.text], hc, rfl, rfl⟩

/-- A text starts with a blank or a newline, opens a comment, or has no gap in front. -/
theorem space_or_opens_or_stop (c : Char) (cs : List Char) :
    isSpace c = true ∨ Opens (c :: cs) ∨ cut (c :: cs) = .nothing (c :: cs) := by
  by_cases hc : isSpace c = true
  · exact Or.inl hc
  · by_cases hm : c = '/' → cs.head? ≠ some '/' ∧ cs.head? ≠ some '*'
    · exact Or.inr (Or.inr (cut_stop (by simpa using hc) hm))
    · obtain ⟨rfl, hx⟩ := Classical.not_imp.1 hm
      cases cs with
      | nil => simp at hx
      | cons x tail =>
          refine Or.inr (Or.inl ⟨x, tail, rfl, ?_⟩)
          by_cases hx' : x = '/'
          · exact Or.inl hx'
          · exact Or.inr (by simpa [hx'] using hx)

/-- The pass, taken apart: it takes nothing, or one piece and then goes on. -/
theorem cut_induction {P : List Char → Prop} (nil : P [])
    (space : ∀ c cs, isSpace c = true → P cs → P (c :: cs))
    (comment : ∀ (m : Comment) (rest : List Char), m.Proper (rest = []) rest → P rest →
      P (m.text ++ rest))
    (stop : ∀ c cs, cut (c :: cs) = .nothing (c :: cs) → P (c :: cs)) (cs : List Char) : P cs := by
  -- on the length, because a comment is taken in one piece
  induction hn : cs.length using Nat.strongRecOn generalizing cs with
  | ind n ih =>
      cases cs with
      | nil => exact nil
      | cons c cs =>
          rw [List.length_cons] at hn
          rcases space_or_opens_or_stop c cs with hc | ho | hs
          · exact space c cs hc (ih cs.length (by omega) cs rfl)
          · obtain ⟨m, rest, heq, hm⟩ := exists_comment ho
            have hlen := congrArg List.length heq
            have htwo := m.two_le_length_text
            simp only [List.length_cons, List.length_append] at hlen
            rw [heq]
            exact comment m rest hm (ih rest.length (by omega) rest rfl)
          · exact stop c cs hs

/-- A comment that is proper in its text is proper in the gap that the pass cuts off. -/
theorem proper_taken_cut {m : Comment} {rest : List Char} {atEnd : Prop}
    (h : m.Proper (rest = []) rest) (he : (cut rest).rest = [] → atEnd) :
    m.Proper atEnd (cut rest).taken := by
  cases m with
  | line body =>
      obtain ⟨hb, hr | ⟨rfl, -⟩⟩ := h
      · cases rest with
        | nil => simp at hr
        | cons c rest =>
            obtain rfl : c = '\n' := by simpa using hr
            rw [cut_space rest (by decide)]
            exact ⟨hb, Or.inl rfl⟩
      · exact ⟨hb, Or.inr ⟨by simp, he (by simp)⟩⟩
  | block body => exact h
  | unclosed body =>
      obtain ⟨hb, rfl, -⟩ := h
      exact ⟨hb, by simp, he (by simp)⟩

/-- The pass cuts off a gap.  Only at the end of the text its last comment may be unfinished. -/
theorem gap_cut (cs : List Char) : Gap ((cut cs).rest = []) (cut cs).taken := by
  induction cs using cut_induction with
  | nil => simpa using Gap.nil
  | space c cs hc ih =>
      rw [cut_space cs hc]
      exact Gap.space hc ih
  | comment m rest hm ih =>
      rw [cut_comment hm]
      exact Gap.comment (proper_taken_cut hm id) ih
  | stop c cs hs =>
      rw [hs]
      exact Gap.nil

/-- A text of which the pass leaves nothing is a gap at the end. -/
theorem gap_of_rest_eq_nil {cs : List Char} (h : (cut cs).rest = []) : Gap True cs := by
  have hwhole := whole_cut cs
  rw [Cut.whole, h, List.append_nil] at hwhole
  have hgap := gap_cut cs
  rw [hwhole] at hgap
  exact hgap.mono fun _ => trivial

theorem taken_cut_ne_nil_of_opens {cs : List Char} (h : Opens cs) : (cut cs).taken ≠ [] := by
  obtain ⟨m, rest, rfl, hm⟩ := exists_comment h
  obtain ⟨x, tail, htext, -⟩ := m.exists_text
  rw [cut_comment hm, htext]
  simp

/-- What the pass leaves has no gap in front. -/
theorem cut_rest_cut (cs : List Char) : cut (cut cs).rest = .nothing (cut cs).rest := by
  induction cs using cut_induction with
  | nil => simp
  | space c cs hc ih => rwa [cut_space cs hc, Cut.rest_keep]
  | comment m rest hm ih => rwa [cut_comment hm, Cut.rest_keep]
  | stop c cs hs => rw [hs, Cut.rest_nothing, hs]

/-- A gap in front of more text is skipped, and nothing else changes. -/
theorem cut_gap_append {gap : List Char} (rest : List Char) (h : Gap False gap) :
    cut (gap ++ rest) = (cut rest).keep gap := by
  induction h with
  | nil => rfl
  | space hc _ ih =>
      rw [List.cons_append, cut_space _ hc, ih]
      rfl
  | @comment m cs hm _ ih =>
      -- what ends the comment stands in the gap, so it is proper in the longer text as well
      have hm' : m.Proper (cs ++ rest = []) (cs ++ rest) := by
        cases m with
        | line body =>
            obtain ⟨hb, hr | hr⟩ := hm
            · exact ⟨hb, Or.inl (by rw [List.head?_append, hr]; rfl)⟩
            · exact absurd hr.2 not_false
        | block body => exact hm
        | unclosed body => exact absurd hm.2.2 not_false
      rw [List.append_assoc, cut_comment hm', ih]
      simp [Cut.keep]

/-- A gap at the end of the text is skipped whole. -/
theorem cut_gap {gap : List Char} (h : Gap True gap) : cut gap = ⟨gap, []⟩ := by
  induction h with
  | nil => exact cut_nil
  | space hc _ ih =>
      rw [cut_space _ hc, ih]
      rfl
  | @comment m cs hm _ ih =>
      have hm' : m.Proper (cs = []) cs := by
        cases m with
        | line body => exact ⟨hm.1, hm.2.imp_right fun hr => ⟨hr.1, hr.1⟩⟩
        | block body => exact hm
        | unclosed body => exact ⟨hm.1, hm.2.1, hm.2.1⟩
      rw [cut_comment hm', ih]
      rfl

/-! ### More text behind a gap -/

/-- A text that is all gap stays in the gap when more text follows. -/
theorem prefix_taken_cutFrom (p : Place) {cs : List Char} (more : List Char)
    (h : (cutFrom p cs).rest = []) : cs <+: (cutFrom p (cs ++ more)).taken := by
  fun_induction cutFrom p cs with
  | case1 => simp
  | case2 cs ih =>
      rw [List.cons_append, List.cons_append, cutFrom]
      simpa using ih h
  | case3 cs ih =>
      rw [List.cons_append, List.cons_append, cutFrom]
      simpa using ih h
  | case4 c cs _ _ hc ih =>
      have := cut_space (cs ++ more) hc
      simp only [cut] at this
      rw [List.cons_append, this]
      simpa using ih h
  | case5 c cs => simp at h
  | case6 cs ih =>
      rw [List.cons_append, cutFrom, if_pos rfl]
      simpa using ih h
  | case7 c cs hc ih =>
      rw [List.cons_append, cutFrom, if_neg hc]
      simpa using ih h
  | case8 cs ih =>
      rw [List.cons_append, List.cons_append, cutFrom]
      simpa using ih h
  | case9 c cs hne ih =>
      -- a star at the end may find the slash of its closing mark in `more`
      by_cases hclose : ∃ ds, c = '*' ∧ cs ++ more = '/' :: ds
      · obtain ⟨ds, rfl, hds⟩ := hclose
        cases cs with
        | nil => simp_all [cutFrom]
        | cons d cs =>
            obtain rfl : d = '/' := (List.cons.inj hds).1
            exact absurd rfl (hne cs rfl)
      · rw [List.cons_append, cutFrom]
        · simpa using ih h
        · exact fun ds h₁ h₂ => hclose ⟨ds, h₁, h₂⟩

end Trivia

end Caret
