/-
**Reading up to a separator.**

A blank or a newline belongs to no word, number or operator.  What is read in front of one is
therefore read alike whatever stands behind it, as if the text ended there.  Quoted literals may hold
blanks, and raw ones newlines; for them it matters whether the closing quote is there.  If it is, the
literal is read whole, whatever follows; if not, the literal has run up to a newline or to the end of
the text, and is read alike in front of another newline or at another end.

Main definitions:

* `Caret.StartsWithSpace` — a text that is empty or starts with a separator;
* `Caret.Cut.StopsAt`, `Caret.Cut.StopsAtSpace` — a reader that stops in front of such a text.

Main results:

* `Caret.Number.read_append_space`, `Caret.Operator.read?_append_space` — numbers and operators in front
  of a separator;
* `Caret.Lexeme.scan_append_space` — **a lexeme that is no literal is read alike in front of any
  separator**;
* `Caret.Quoted.closed_or_stopped` — a literal is closed, or it runs up to a newline or to the end;
* `Caret.Lexeme.scan_congr_rest` — **what stands behind a lexeme does not matter**, as long as a
  separator or the end of the text takes its place.
-/

import Caret.Proofs.Cutoff
import Caret.Proofs.Gap
import Caret.Proofs.Literal

set_option relaxedAutoImplicit false
set_option autoImplicit false

namespace Caret

/-- Nothing stands there, or a blank or a newline in front of anything else. -/
def StartsWithSpace (cs : List Char) : Prop := ∀ c ∈ cs.head?, isSpace c = true

theorem StartsWithSpace.cases {cs : List Char} (h : StartsWithSpace cs) :
    cs = [] ∨ ∃ c ds, cs = c :: ds ∧ isSpace c = true := by
  cases cs with
  | nil => exact Or.inl rfl
  | cons c ds => exact Or.inr ⟨c, ds, rfl, h c rfl⟩

theorem startsWithSpace_newline (cs : List Char) : StartsWithSpace ('\n' :: cs) := by
  intro c hc
  obtain rfl := Option.some.inj hc
  decide

theorem isSpace_cases {c : Char} (h : isSpace c = true) : c = ' ' ∨ c = '\t' ∨ c = '\r' ∨ c = '\n' := by
  simpa [isSpace, isBlank, or_assoc] using h

/-! ### Readers that stop in front of a separator -/

namespace Cut

/-- The reader `f` takes no more of `cs` if a separator with anything behind it follows. -/
def StopsAt (f : List Char → Cut) (cs : List Char) : Prop :=
  ∀ more, StartsWithSpace more → f (cs ++ more) = (f cs).extend more

/-- A reader that stops in front of a separator, whatever text it reads. -/
def StopsAtSpace (f : List Char → Cut) : Prop := ∀ cs, StopsAt f cs

variable {f g : List Char → Cut} {c : Char} {cs : List Char}

theorem StopsAt.nil (h₀ : f [] = .nothing [])
    (h : ∀ d ds, isSpace d = true → f (d :: ds) = .nothing (d :: ds)) : StopsAt f [] := by
  intro more hm
  rw [List.nil_append, h₀]
  rcases hm.cases with rfl | ⟨d, ds, rfl, hd⟩
  · exact h₀
  · exact h d ds hd

/-- A reader that takes nothing, whatever follows the first character. -/
theorem StopsAt.nothing (h : ∀ ds, f (c :: ds) = .nothing (c :: ds)) : StopsAt f (c :: cs) := by
  intro more _
  rw [List.cons_append, h, h]
  rfl

/-- A reader that takes `front`, whatever follows, and goes on with another. -/
theorem StopsAt.keep (front : List Char) (h : ∀ ds, f (front ++ ds) = (g ds).keep front)
    (hg : StopsAt g cs) : StopsAt f (front ++ cs) := by
  intro more hm
  rw [List.append_assoc, h, h, hg more hm, extend_keep]

/-- A reader that is like another as soon as it has seen `front`. -/
theorem StopsAt.congr (front : List Char) (h : ∀ ds, f (front ++ ds) = g (front ++ ds))
    (hg : StopsAt g (front ++ cs)) : StopsAt f (front ++ cs) := by
  intro more hm
  have := hg more hm
  rw [List.append_assoc] at this
  rw [List.append_assoc, h, h, this]

theorem stopsAtSpace_run {p : Char → Bool} (h : ∀ c, isSpace c = true → p c = false) :
    StopsAtSpace (run p) := by
  intro cs
  induction cs with
  | nil => exact StopsAt.nil rfl fun d ds hd => by simp [run, h d hd, Cut.nothing]
  | cons c cs ih =>
      cases hc : p c with
      | true => exact StopsAt.keep [c] (fun ds => by simp [run, hc, Cut.keep]) ih
      | false => exact StopsAt.nothing fun ds => by simp [run, hc, Cut.nothing]

end Cut

theorem isWordChar_of_isSpace {c : Char} (h : isSpace c = true) : isWordChar c = false := by
  rcases isSpace_cases h with rfl | rfl | rfl | rfl <;> decide

/-! ### Numbers -/

namespace Number

open Cut

theorem isDigit_of_isSpace (radix : Radix) {c : Char} (h : isSpace c = true) :
    radix.isDigit c = false := by
  cases radix <;> rcases isSpace_cases h with rfl | rfl | rfl | rfl <;> decide

theorem isExponentMark_of_isSpace (radix : Radix) {c : Char} (h : isSpace c = true) :
    radix.isExponentMark c = false := by
  cases radix <;> rcases isSpace_cases h with rfl | rfl | rfl | rfl <;> decide

theorem ofMark?_of_isSpace {c : Char} (h : isSpace c = true) : Radix.ofMark? c = none := by
  rcases isSpace_cases h with rfl | rfl | rfl | rfl <;> decide

theorem stopsAtSpace_digits (radix : Radix) : StopsAtSpace (run radix.isDigit) :=
  stopsAtSpace_run fun _ h => isDigit_of_isSpace radix h

theorem stopsAtSpace_isDigit : StopsAtSpace (run isDigit) := stopsAtSpace_digits .decimal

theorem stopsAtSpace_cutFraction (radix : Radix) : StopsAtSpace (cutFraction radix)
  | [] => StopsAt.nil rfl fun d ds hd => by
      rcases isSpace_cases hd with rfl | rfl | rfl | rfl <;> rfl
  | c :: cs => by
      by_cases hc : c = '.' ∧ radix ≠ .small
      · obtain ⟨rfl, hr⟩ := hc
        exact StopsAt.keep ['.'] (fun ds => by simp [cutFraction, hr])
          (stopsAtSpace_digits radix cs)
      · exact StopsAt.nothing (cutFraction_stop hc)

theorem stopsAtSpace_cutSigned : StopsAtSpace cutSigned
  | [] => StopsAt.nil rfl fun d ds hd => by
      rcases isSpace_cases hd with rfl | rfl | rfl | rfl <;> rfl
  | c :: cs => by
      by_cases hc : c = '+' ∨ c = '-'
      · exact StopsAt.keep [c] (fun ds => by simp [cutSigned, hc]) (stopsAtSpace_isDigit cs)
      · exact StopsAt.congr [c] (fun ds => by simp [cutSigned, hc]) (stopsAtSpace_isDigit _)

theorem stopsAtSpace_cutExponent (radix : Radix) : StopsAtSpace (cutExponent radix)
  | [] => StopsAt.nil rfl fun d ds hd => by
      simp [cutExponent, isExponentMark_of_isSpace radix hd]
  | c :: cs => by
      by_cases hc : radix.isExponentMark c = true
      · exact StopsAt.keep [c] (fun ds => by simp [cutExponent, hc]) (stopsAtSpace_cutSigned cs)
      · exact StopsAt.nothing fun ds => by rw [cutExponent, if_neg hc]

theorem stopsAtSpace_cutSuffix : StopsAtSpace cutSuffix
  | [] => StopsAt.nil rfl fun d ds hd => by
      rcases isSpace_cases hd with rfl | rfl | rfl | rfl <;> rfl
  | c :: cs => by
      by_cases hc : c = 'i'
      · subst hc
        intro more _
        rfl
      · exact StopsAt.nothing (cutSuffix_stop hc)

/-- The radix of a number is known in front of a separator, and its integer part ends there. -/
theorem cutInteger_append_space (cs : List Char) {more : List Char} (hm : StartsWithSpace more) :
    cutInteger (cs ++ more) = ((cutInteger cs).1, (cutInteger cs).2.extend more) := by
  rcases hm.cases with rfl | ⟨d, ds, rfl, hd⟩
  · simp [Cut.extend]
  · have hmark := ofMark?_of_isSpace hd
    match cs with
    | [] => rcases isSpace_cases hd with rfl | rfl | rfl | rfl <;> rfl
    | [c] =>
        have hnone : c = '0' → ∀ mark ∈ (d :: ds).head?, Radix.ofMark? mark = none := by
          intro _ mark hmem
          rw [← Option.some.inj hmem]
          exact hmark
        have hrun := stopsAtSpace_isDigit [c] (d :: ds) hm
        rw [List.singleton_append] at hrun ⊢
        rw [cutInteger_eq_run hnone, cutInteger_eq_run (by simp), hrun]
    | c :: mark :: cs =>
        by_cases hnone : c = '0' → Radix.ofMark? mark = none
        · have hrun := stopsAtSpace_isDigit (c :: mark :: cs) (d :: ds) hm
          rw [List.cons_append, List.cons_append] at hrun ⊢
          rw [cutInteger_eq_run (by simpa using hnone), cutInteger_eq_run (by simpa using hnone), hrun]
        · obtain ⟨rfl, hsome⟩ := Classical.not_imp.1 hnone
          obtain ⟨radix, hradix⟩ := Option.ne_none_iff_exists'.1 hsome
          rw [List.cons_append, List.cons_append, cutInteger_mark _ hradix, cutInteger_mark _ hradix,
            stopsAtSpace_digits radix cs (d :: ds) hm, extend_keep]

/-- A number in front of a separator is read part by part as if the text ended there. -/
theorem read_append_space (cs : List Char) {more : List Char} (hm : StartsWithSpace more) :
    read (cs ++ more) = ((read cs).1, (read cs).2 ++ more) := by
  have h₂ := fun radix ds => stopsAtSpace_cutFraction radix ds more hm
  have h₃ := fun radix ds => stopsAtSpace_cutExponent radix ds more hm
  have h₄ := fun ds => stopsAtSpace_cutSuffix ds more hm
  simp only [read, cutInteger_append_space cs hm, h₂, h₃, h₄, Cut.extend]

/-- A separator is no digit that could make a number of a point. -/
theorem starts_append_space (cs : List Char) {more : List Char} (hm : StartsWithSpace more) :
    starts (cs ++ more) = starts cs := by
  have hdigit : ∀ {d : Char}, isSpace d = true → d.isDigit = false ∧ d ≠ '.' := by
    intro d hd
    rcases isSpace_cases hd with rfl | rfl | rfl | rfl <;> decide
  rcases hm.cases with rfl | ⟨d, ds, rfl, hd⟩
  · rw [List.append_nil]
  · match cs with
    | [] => simp [starts, hdigit hd]
    | [c] => simp [starts, hdigit hd]
    | c :: e :: cs => rfl

end Number

/-! ### Operators -/

namespace Operator

theorem isSpace_of_mem_spelling (o : Operator) : ∀ c ∈ o.spelling.toList, isSpace c = false := by
  have hall : (o.spelling.toList.all fun c => !isSpace c) = true := by cases o <;> decide
  simpa using hall

/-- A spelling that a text with a separator starts with ends in front of the separator. -/
theorem isPrefix_of_append_space {cs more : List Char} (o : Operator) (hm : StartsWithSpace more)
    (h : o.spelling.toList <+: cs ++ more) : o.spelling.toList <+: cs := by
  rcases List.prefix_or_prefix_of_prefix h (List.prefix_append cs more) with hpre | ⟨back, hback⟩
  · exact hpre
  · rw [← hback, List.prefix_append_right_inj] at h
    rcases back with _ | ⟨c, back⟩
    · exact ⟨[], by rw [List.append_nil, ← hback, List.append_nil]⟩
    · -- the spelling would hold the separator
      obtain ⟨left, hleft⟩ := h
      have hc : isSpace c = true := hm c (by rw [← hleft]; rfl)
      have hc' := o.isSpace_of_mem_spelling c (by rw [← hback]; simp)
      rw [hc] at hc'
      exact absurd hc' (by decide)

theorem read?_append_space (cs : List Char) {more : List Char} (hm : StartsWithSpace more) :
    read? (cs ++ more) = (read? cs).map fun p => (p.1, p.2 ++ more) := by
  cases h : read? cs with
  | none =>
      refine read?_eq_none_iff.2 ?_
      intro o hpre
      exact read?_eq_none_iff.1 h o (isPrefix_of_append_space o hm hpre)
  | some p =>
      obtain ⟨o, rest⟩ := p
      obtain ⟨rfl, before, after, hl, hb⟩ := read?_eq_some_iff.1 h
      refine read?_eq_some_iff.2 ⟨List.append_assoc .., before, after, hl, ?_⟩
      intro p hp hpre
      exact hb p hp (isPrefix_of_append_space p hm hpre)

end Operator

/-! ### Lexemes that are no literals -/

namespace Lexeme

/-- **A lexeme that is no literal is read alike in front of any separator**, as if the text ended
there. -/
theorem scan_append_space {c : Char} (cs : List Char) {more : List Char} (hq : ¬ IsQuote c)
    (hm : StartsWithSpace more) :
    scan (c :: cs ++ more) = ((scan (c :: cs)).1, (scan (c :: cs)).2.extend more) := by
  have hstarts := Number.starts_append_space (c :: cs) hm
  have hread := Operator.read?_append_space (c :: cs) hm
  rw [List.cons_append] at hstarts hread ⊢
  cases hl : isLetter c with
  | true =>
      have hword := Cut.stopsAtSpace_run (fun _ => isWordChar_of_isSpace) (c :: cs) more hm
      rw [List.cons_append] at hword
      rw [scan_letter _ hl, scan_letter _ hl, Word.cut, Word.cut, hword]
      rfl
  | false =>
      cases hn : Number.starts (c :: cs) with
      | true =>
          have hnum := Number.read_append_space (c :: cs) hm
          rw [List.cons_append] at hnum
          rw [scan_number hl (hstarts.trans hn), scan_number hl hn, Number.cut, Number.cut, hnum]
          rfl
      | false =>
          cases ho : Operator.read? (c :: cs) with
          | none =>
              rw [ho] at hread
              rw [scan_illegal hl (hstarts.trans hn) hq hread, scan_illegal hl hn hq ho]
              rfl
          | some p =>
              rw [ho] at hread
              rw [scan_operator hl (hstarts.trans hn) hq hread, scan_operator hl hn hq ho]
              rfl

end Lexeme

/-! ### Literals -/

namespace Quoted

variable {quote : Char} {tail rest more : List Char}

/-- An interpreted literal is closed, or it runs up to a newline or to the end of the text. -/
theorem body_or_stopped (quote : Char) (cs : List Char) :
    (∃ body, Body quote body ∧ (cutInterpreted quote cs).taken = body ++ [quote]) ∨
      (cutInterpreted quote cs).rest = [] ∨ (cutInterpreted quote cs).rest.head? = some '\n' := by
  fun_induction cutInterpreted quote cs with
  | case1 => exact Or.inr (Or.inl rfl)
  | case2 => exact Or.inr (Or.inr rfl)
  | case3 => exact Or.inr (Or.inl rfl)
  | case4 => exact Or.inr (Or.inr rfl)
  | case5 => exact Or.inl ⟨[], Body.nil, rfl⟩
  | case6 c d cs _ _ hesc ih =>
      obtain ⟨rfl, hd⟩ := hesc
      rcases ih with ⟨body, hbody, h⟩ | h
      · exact Or.inl ⟨'\\' :: d :: body, Body.escape hd hbody, by simpa using h⟩
      · exact Or.inr h
  | case7 c d cs hcn hcq hesc ih =>
      by_cases hcb : c = '\\'
      · -- a newline follows the backslash, and the literal ends there
        obtain rfl : d = '\n' := Classical.not_not.1 fun hd => hesc ⟨hcb, hd⟩
        rw [cutInterpreted_newline]
        exact Or.inr (Or.inr rfl)
      · rcases ih with ⟨body, hbody, h⟩ | h
        · exact Or.inl ⟨c :: body, Body.plain hcq hcb hcn hbody, by simpa using h⟩
        · exact Or.inr h

/-- A raw string is closed, or it runs to the end of the text. -/
theorem rawBody_or_end (cs : List Char) :
    (∃ body, '\x60' ∉ body ∧ (cutRaw cs).taken = body ++ ['\x60']) ∨ (cutRaw cs).rest = [] := by
  induction cs with
  | nil => exact Or.inr rfl
  | cons c cs ih =>
      by_cases hc : c = '\x60'
      · exact Or.inl ⟨[], by simp, by simp [cutRaw, hc]⟩
      · rw [cutRaw, if_neg hc]
        rcases ih with ⟨body, hbody, h⟩ | h
        · exact Or.inl ⟨c :: body, by simp [hbody, Ne.symm hc], by simpa using h⟩
        · exact Or.inr h

/-- A literal is closed, and then nothing behind it matters, or it runs up to a newline or to the end
of the text. -/
theorem closed_or_stopped (hq : Lexeme.IsQuote quote)
    (h : Quoted.cut quote (tail ++ rest) = ⟨tail, rest⟩) :
    (∀ more, Quoted.cut quote (tail ++ more) = ⟨tail, more⟩) ∨
      rest = [] ∨ rest.head? = some '\n' := by
  by_cases hraw : quote = '\x60'
  · subst hraw
    rw [Quoted.cut, if_pos rfl] at h ⊢
    have hcases := rawBody_or_end (tail ++ rest)
    rw [h] at hcases
    rcases hcases with ⟨body, hbody, rfl⟩ | hrest
    · refine Or.inl fun more => ?_
      rw [List.append_assoc]
      exact cutRaw_close hbody
    · exact Or.inr (Or.inl hrest)
  · rw [Quoted.cut, if_neg hraw] at h ⊢
    have hcases := body_or_stopped quote (tail ++ rest)
    rw [h] at hcases
    rcases hcases with ⟨body, hbody, rfl⟩ | hrest
    · have hne : quote ≠ '\\' ∧ quote ≠ '\n' := by rcases hq with rfl | rfl | rfl <;> decide
      refine Or.inl fun more => ?_
      rw [List.append_assoc]
      exact cutInterpreted_close hne.1 hne.2 hbody
    · exact Or.inr hrest

/-- A literal that runs up to a character is read alike in front of the same character with something
else behind it. -/
theorem cut_congr_head {d : Char} {back : List Char} (hq : Lexeme.IsQuote quote)
    (h : Quoted.cut quote (tail ++ d :: rest) = ⟨tail, d :: rest⟩) :
    Quoted.cut quote (tail ++ d :: back) = ⟨tail, d :: back⟩ := by
  have honline := online_cut hq (tail ++ [d])
  have htaken : (Quoted.cut quote (tail ++ [d] ++ rest)).taken = tail := by simp [h]
  have hone := honline.of_append (Quoted.whole_cut quote) htaken
  have := honline.stopped back (by rw [hone]; simp)
  rw [hone] at this
  simpa [Cut.extend] using this

/-- What stands behind a literal does not matter, as long as a newline or the end of the text stays one
of the two. -/
theorem cut_congr_rest (hq : Lexeme.IsQuote quote)
    (h : Quoted.cut quote (tail ++ rest) = ⟨tail, rest⟩) (hend : rest = [] → more = [])
    (hline : rest.head? = some '\n' → more = [] ∨ more.head? = some '\n') :
    Quoted.cut quote (tail ++ more) = ⟨tail, more⟩ := by
  rcases closed_or_stopped hq h with hclosed | rfl | hnl
  · exact hclosed more
  · rwa [hend rfl]
  · rcases hline hnl with rfl | hnl'
    · have htaken : (Quoted.cut quote (tail ++ [] ++ rest)).taken = tail := by simp [h]
      exact (online_cut hq _).of_append (Quoted.whole_cut quote) htaken
    · obtain ⟨rest, rfl⟩ := List.head?_eq_some_iff.1 hnl
      obtain ⟨back, rfl⟩ := List.head?_eq_some_iff.1 hnl'
      exact cut_congr_head hq h

end Quoted

namespace Lexeme

/-- **What stands behind a lexeme does not matter**, as long as a separator or the end of the text stands
there instead.  Only the end of the text may take the place of the end of the text, and only that or
another newline the place of a newline behind a literal. -/
theorem scan_congr_rest {kind : Kind} {text rest more : List Char} (ht : text ≠ [])
    (h : scan (text ++ rest) = (kind, ⟨text, rest⟩)) (hm : StartsWithSpace more)
    (hend : rest = [] → more = [])
    (hline : kind = .string ∨ kind = .char → rest.head? = some '\n' →
      more = [] ∨ more.head? = some '\n') :
    scan (text ++ more) = (kind, ⟨text, more⟩) := by
  obtain ⟨c, tail, rfl⟩ := List.exists_cons_of_ne_nil ht
  by_cases hq : IsQuote c
  · rw [List.cons_append, scan_quote _ hq, Prod.mk.injEq] at h ⊢
    obtain ⟨hk, hcut⟩ := h
    have hkind : kind = .string ∨ kind = .char := hk ▸ (quoteKind_cases c).symm
    have hcut' : Quoted.cut c (tail ++ rest) = ⟨tail, rest⟩ :=
      Cut.eq_of_taken (Quoted.whole_cut c _) (by simpa using congrArg Cut.taken hcut)
    refine ⟨hk, ?_⟩
    rw [Quoted.cut_congr_rest hq hcut' hend (hline hkind)]
    rfl
  · -- the lexeme alone is read as itself
    have halone : scan (c :: tail) = (kind, ⟨c :: tail, []⟩) := by
      have := @scan_of_append kind [] rest (c :: tail) (by simpa using h) ht
      simpa using this
    rw [scan_append_space tail hq hm, halone]
    rfl

end Lexeme

/-- Where no gap stands in front of a lexeme, none does if a separator takes the place of what follows
it. -/
theorem Trivia.cut_congr_rest {text rest more : List Char} (ht : text ≠ [])
    (h : Trivia.cut (text ++ rest) = .nothing (text ++ rest)) (hm : StartsWithSpace more) :
    Trivia.cut (text ++ more) = .nothing (text ++ more) := by
  obtain ⟨c, tail, rfl⟩ := List.exists_cons_of_ne_nil ht
  have htaken : (Trivia.cut (c :: (tail ++ rest))).taken = [] := by
    rw [← List.cons_append, h, Cut.taken_nothing]
  rcases Trivia.space_or_opens_or_stop c (tail ++ more) with hc | ⟨x, back, heq, hx⟩ | hstop
  · rw [Trivia.cut_space _ hc] at htaken
    exact absurd htaken (by simp)
  · obtain ⟨rfl, hback⟩ := List.cons.inj heq
    rcases tail with _ | ⟨y, tail⟩
    · -- a separator does not make a comment of a slash
      have hspace : isSpace x = true := hm x (by rw [show more = x :: back from hback]; rfl)
      rcases hx with rfl | rfl <;> exact absurd hspace (by decide)
    · obtain ⟨rfl, -⟩ := List.cons.inj hback
      exact absurd htaken (Trivia.taken_cut_ne_nil_of_opens ⟨y, tail ++ rest, rfl, hx⟩)
  · exact hstop

end Caret
