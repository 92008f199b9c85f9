/-
**Reading a text that is cut off.**

The readers of the lexer run over a text from left to right and stop at the first character that
does not belong to what they read.  More text behind that character does not matter to them, and a
reader that took all of its text takes it again when more follows.  Both together say what becomes
of a lexeme when the text is cut off: one that ends before the cut is read as before, and one that
the cut goes through is read up to the cut.

The operators are the exception that keeps the two statements apart: `...` is one operator, but two
periods at the end of a text are not the beginning of it.

Main definitions:

* `Caret.Cut.extend` — the same cut of a longer text;
* `Caret.Cut.OnlineAt`, `Caret.Cut.Online` — more text behind a text changes a reader's answer only
  if it had reached the end.

Main results:

* `Caret.Cut.OnlineAt.of_append`, `Caret.Cut.OnlineAt.of_taken_append` — a cut behind what is taken
  keeps it, and a cut through it keeps the part before the cut;
* `Caret.Quoted.online_cut` — the readers of quoted literals are of this kind;
* `Caret.Number.read_of_append`, `Caret.Operator.read?_of_append` — a number or an operator that
  ends before the cut is read as before;
* `Caret.Lexeme.scan_of_append` — **a lexeme that ends before the cut is read as before**;
* `Caret.Lexeme.scan_letter_of_taken_append`, `Caret.Lexeme.scan_quote_of_taken_append` — a word or
  a literal that the cut goes through is read up to the cut.
-/

import Caret.Proofs.Scan

set_option relaxedAutoImplicit false
set_option autoImplicit false

namespace Caret

namespace Cut

/-! ### Readers that do not look ahead -/

/-- The same cut of a text with `more` behind it. -/
def extend (c : Cut) (more : List Char) : Cut := ⟨c.taken, c.rest ++ more⟩

@[simp] theorem taken_extend (c : Cut) (more : List Char) : (c.extend more).taken = c.taken := rfl

theorem extend_keep (front : List Char) (c : Cut) (more : List Char) :
    (c.keep front).extend more = (c.extend more).keep front := rfl

/-- More text behind `cs` does not change the answer of the reader `f` if it stopped before the end
of `cs`; if it reached the end, it takes all of `cs` again. -/
structure OnlineAt (f : List Char → Cut) (cs : List Char) : Prop where
  stopped : ∀ more, (f cs).rest ≠ [] → f (cs ++ more) = (f cs).extend more
  reached : ∀ more, (f cs).rest = [] → cs <+: (f (cs ++ more)).taken

/-- A reader whose answer about any text is of this kind. -/
def Online (f : List Char → Cut) : Prop := ∀ cs, OnlineAt f cs

section

variable {f g : List Char → Cut} {c : Char} {cs taken rest front back more : List Char}

theorem OnlineAt.nil (h : (f []).rest = []) : OnlineAt f [] :=
  ⟨fun _ hr => absurd h hr, fun _ _ => List.nil_prefix⟩

/-- A reader that takes nothing, whatever follows the first character. -/
theorem OnlineAt.nothing (h : ∀ ds, f (c :: ds) = .nothing (c :: ds)) : OnlineAt f (c :: cs) where
  stopped more _ := by
    rw [List.cons_append, h, h]
    rfl
  reached more hr := by simp [h] at hr

/-- A reader that takes `front`, whatever follows, and goes on with another. -/
theorem OnlineAt.keep (front : List Char) (h : ∀ ds, f (front ++ ds) = (g ds).keep front)
    (hg : OnlineAt g cs) : OnlineAt f (front ++ cs) where
  stopped more hr := by
    rw [h, rest_keep] at hr
    rw [List.append_assoc, h, h, hg.stopped more hr, extend_keep]
  reached more hr := by
    rw [h, rest_keep] at hr
    rw [List.append_assoc, h, taken_keep, List.prefix_append_right_inj]
    exact hg.reached more hr

/-- A reader that is like another as soon as it has seen `front`. -/
theorem OnlineAt.congr (front : List Char) (h : ∀ ds, f (front ++ ds) = g (front ++ ds))
    (hg : OnlineAt g (front ++ cs)) : OnlineAt f (front ++ cs) where
  stopped more hr := by
    rw [h] at hr
    rw [h, List.append_assoc, h, ← List.append_assoc, hg.stopped more hr]
  reached more hr := by
    rw [h] at hr
    rw [List.append_assoc, h, ← List.append_assoc]
    exact hg.reached more hr

theorem online_nothing : Online nothing
  | [] => OnlineAt.nil rfl
  | _ :: _ => OnlineAt.nothing fun _ => rfl

theorem online_run (p : Char → Bool) : Online (run p) := by
  intro cs
  induction cs with
  | nil => exact OnlineAt.nil rfl
  | cons c cs ih =>
      by_cases hc : p c = true
      · exact OnlineAt.keep [c] (fun ds => by simp [run, hc, keep]) ih
      · exact OnlineAt.nothing fun ds => by simp [run, hc, nothing]

/-! ### What a cut does -/

/-- A cut is known by the text and what is taken off it. -/
theorem eq_of_taken {c : Cut} (hw : c.whole = taken ++ rest) (ht : c.taken = taken) :
    c = ⟨taken, rest⟩ := by
  subst ht
  rw [whole] at hw
  rw [← List.append_cancel_left hw]

/-- Cutting the text off behind what is taken keeps it. -/
theorem OnlineAt.of_append (hf : OnlineAt f (taken ++ rest)) (hw : ∀ ds, (f ds).whole = ds)
    (h : (f (taken ++ rest ++ more)).taken = taken) : f (taken ++ rest) = ⟨taken, rest⟩ := by
  refine eq_of_taken (hw _) ?_
  by_cases hr : (f (taken ++ rest)).rest = []
  · -- the reader takes all of the shorter text, so it is no longer than what is taken
    have hlen := (hf.reached more hr).length_le
    rw [h, List.length_append] at hlen
    obtain rfl : rest = [] := List.length_eq_zero_iff.1 (by omega)
    have hwhole := hw (taken ++ [])
    rw [whole, hr, List.append_nil] at hwhole
    rwa [List.append_nil] at hwhole ⊢
  · rw [hf.stopped more hr] at h
    exact h

/-- Cutting the text off within what is taken leaves the part before the cut. -/
theorem OnlineAt.of_taken_append (hf : OnlineAt f front) (hw : ∀ ds, (f ds).whole = ds)
    (h : (f (front ++ more)).taken = front ++ back) (hb : back ≠ []) : f front = ⟨front, []⟩ := by
  have hwhole := hw front
  by_cases hr : (f front).rest = []
  · rw [whole, hr, List.append_nil] at hwhole
    exact eq_of_taken (by rw [hw, List.append_nil]) hwhole
  · rw [hf.stopped more hr, taken_extend] at h
    have hlen := congrArg List.length hwhole
    have := List.length_pos_iff.2 hb
    simp only [whole, h, List.length_append] at hlen
    omega

end

end Cut

/-! ### Quoted literals -/

namespace Quoted

theorem online_cutInterpreted {quote : Char} (hq : quote ≠ '\n') :
    Cut.Online (cutInterpreted quote) := by
  intro cs
  fun_induction cutInterpreted quote cs with
  | case1 => exact Cut.OnlineAt.nil rfl
  | case2 => exact Cut.OnlineAt.nothing fun ds => by cases ds <;> simp [cutInterpreted]
  | case3 c hc =>
      -- a single character is taken in any case; only what is taken behind it may change
      have hend : (cutInterpreted quote [c]).rest = [] := by simp [cutInterpreted, hc]
      refine ⟨fun _ hr => absurd hend hr, fun more _ => ?_⟩
      cases more with
      | nil => simp [cutInterpreted, hc]
      | cons d more =>
          rw [List.singleton_append, cutInterpreted, if_neg hc]
          split
          · simp
          · split <;> simp
  | case4 d cs =>
      exact Cut.OnlineAt.nothing fun ds => by cases ds <;> simp [cutInterpreted]
  | case5 d cs =>
      exact Cut.OnlineAt.keep (g := Cut.nothing) [quote]
        (fun ds => by cases ds <;> simp [cutInterpreted, hq, Cut.keep, Cut.nothing])
        (Cut.online_nothing (d :: cs))
  | case6 c d cs hc hquote hesc ih =>
      refine Cut.OnlineAt.keep [c, d] (fun ds => ?_) ih
      rw [List.cons_append, List.singleton_append, cutInterpreted, if_neg hc, if_neg hquote,
        if_pos hesc]
  | case7 c d cs hc hquote hesc ih =>
      -- the answer only depends on `d` up to here, so the text may be replaced behind it
      have hkeep : ∀ ds, cutInterpreted quote (c :: d :: ds)
          = (cutInterpreted quote (d :: ds)).keep [c] := fun ds => by
        rw [cutInterpreted, if_neg hc, if_neg hquote, if_neg hesc]
      constructor
      · intro more hr
        rw [hkeep, Cut.rest_keep] at hr
        rw [List.cons_append, List.cons_append, hkeep, hkeep, ← List.cons_append,
          ih.stopped more hr]
        rfl
      · intro more hr
        rw [hkeep, Cut.rest_keep] at hr
        rw [List.cons_append, List.cons_append, hkeep]
        simpa using ih.reached more hr

theorem online_cutRaw : Cut.Online cutRaw := by
  intro cs
  induction cs with
  | nil => exact Cut.OnlineAt.nil rfl
  | cons c cs ih =>
      by_cases hc : c = '\x60'
      · exact Cut.OnlineAt.keep (g := Cut.nothing) [c]
          (fun ds => by simp [cutRaw, hc, Cut.keep, Cut.nothing]) (Cut.online_nothing cs)
      · exact Cut.OnlineAt.keep [c] (fun ds => by simp [cutRaw, hc]) ih

theorem online_cut {quote : Char} (h : Lexeme.IsQuote quote) : Cut.Online (Quoted.cut quote) := by
  unfold Quoted.cut
  split
  · exact online_cutRaw
  · exact online_cutInterpreted (by rcases h with rfl | rfl | rfl <;> decide)

end Quoted

/-! ### Numbers -/

namespace Number

theorem cutFraction_stop {radix : Radix} {c : Char} (h : ¬ (c = '.' ∧ radix ≠ .small))
    (cs : List Char) : cutFraction radix (c :: cs) = .nothing (c :: cs) := by
  unfold cutFraction
  split
  · next heq => simp_all
  · rfl

theorem cutSuffix_stop {c : Char} (h : c ≠ 'i') (cs : List Char) :
    cutSuffix (c :: cs) = .nothing (c :: cs) := by
  unfold cutSuffix
  split
  · next heq => exact absurd (List.cons.inj heq).1 h
  · rfl

theorem online_cutFraction (radix : Radix) : Cut.Online (cutFraction radix)
  | [] => Cut.OnlineAt.nil rfl
  | c :: cs => by
      by_cases hc : c = '.' ∧ radix ≠ .small
      · obtain ⟨rfl, hr⟩ := hc
        exact Cut.OnlineAt.keep ['.'] (fun ds => by simp [cutFraction, hr])
          (Cut.online_run radix.isDigit cs)
      · exact Cut.OnlineAt.nothing (cutFraction_stop hc)

theorem online_cutSigned : Cut.Online cutSigned
  | [] => Cut.OnlineAt.nil rfl
  | c :: cs => by
      by_cases hc : c = '+' ∨ c = '-'
      · exact Cut.OnlineAt.keep [c] (fun ds => by simp [cutSigned, hc])
          (Cut.online_run isDigit cs)
      · exact Cut.OnlineAt.congr [c] (fun ds => by simp [cutSigned, hc]) (Cut.online_run isDigit _)

theorem online_cutExponent (radix : Radix) : Cut.Online (cutExponent radix)
  | [] => Cut.OnlineAt.nil rfl
  | c :: cs => by
      by_cases hc : radix.isExponentMark c = true
      · exact Cut.OnlineAt.keep [c] (fun ds => by simp [cutExponent, hc]) (online_cutSigned cs)
      · exact Cut.OnlineAt.nothing fun ds => by rw [cutExponent, if_neg hc]

theorem online_cutSuffix : Cut.Online cutSuffix
  | [] => Cut.OnlineAt.nil rfl
  | c :: cs => by
      by_cases hc : c = 'i'
      · obtain rfl := hc
        exact Cut.OnlineAt.keep (g := Cut.nothing) ['i'] (fun ds => rfl) (Cut.online_nothing cs)
      · exact Cut.OnlineAt.nothing (cutSuffix_stop hc)

theorem cutInteger_mark {mark : Char} {radix : Radix} (cs : List Char)
    (h : Radix.ofMark? mark = some radix) :
    cutInteger ('0' :: mark :: cs) = (radix, (Cut.run radix.isDigit cs).keep ['0', mark]) := by
  simp [cutInteger, h]

/-- Without a mark the integer part is a run of digits. -/
theorem cutInteger_eq_run {c : Char} {cs : List Char}
    (h : c = '0' → ∀ mark ∈ cs.head?, Radix.ofMark? mark = none) :
    cutInteger (c :: cs) = (.decimal, .run isDigit (c :: cs)) := by
  unfold cutInteger
  split
  · next mark ds heq =>
      obtain ⟨rfl, rfl⟩ := List.cons.inj heq
      rw [h rfl mark rfl]
  · rfl

theorem online_cutInteger : Cut.Online fun cs => (cutInteger cs).2
  | [] => Cut.OnlineAt.nil rfl
  | [c] => by
      by_cases hc : c = '0'
      · -- the mark of a radix may follow, and the zero is taken either way
        obtain rfl := hc
        refine ⟨fun _ hr => absurd rfl hr, fun more _ => ?_⟩
        cases more with
        | nil => exact List.prefix_rfl
        | cons mark more =>
            cases hm : Radix.ofMark? mark with
            | some radix => simp [cutInteger_mark more hm]
            | none => simp [cutInteger, hm, Cut.run, isDigit]
      · exact Cut.OnlineAt.congr [c] (fun ds => by simp [cutInteger_eq_run (fun h => absurd h hc)])
          (Cut.online_run isDigit [c])
  | c :: mark :: cs => by
      by_cases hm : c = '0' → Radix.ofMark? mark = none
      · exact Cut.OnlineAt.congr [c, mark]
          (fun ds => by simp [@cutInteger_eq_run c (mark :: ds) (by simpa using hm)])
          (Cut.online_run isDigit (c :: mark :: cs))
      · obtain ⟨rfl, hsome⟩ := Classical.not_imp.1 hm
        obtain ⟨radix, hradix⟩ := Option.ne_none_iff_exists'.1 hsome
        exact Cut.OnlineAt.keep ['0', mark] (fun ds => by simp [cutInteger_mark ds hradix])
          (Cut.online_run radix.isDigit cs)

/-- The radix is known as soon as something follows the integer part. -/
theorem radix_append {cs : List Char} (more : List Char) (h : (cutInteger cs).2.rest ≠ []) :
    (cutInteger (cs ++ more)).1 = (cutInteger cs).1 := by
  match cs with
  | [] => exact absurd rfl h
  | [c] =>
      by_cases hc : c = '0'
      · obtain rfl := hc
        exact absurd rfl h
      · rw [List.singleton_append, cutInteger_eq_run (fun h => absurd h hc),
          cutInteger_eq_run (fun h => absurd h hc)]
  | c :: mark :: cs =>
      by_cases hm : c = '0' → Radix.ofMark? mark = none
      · rw [List.cons_append, List.cons_append, cutInteger_eq_run (by simpa using hm),
          cutInteger_eq_run (by simpa using hm)]
      · obtain ⟨rfl, hsome⟩ := Classical.not_imp.1 hm
        obtain ⟨radix, hradix⟩ := Option.ne_none_iff_exists'.1 hsome
        rw [List.cons_append, List.cons_append, cutInteger_mark _ hradix, cutInteger_mark _ hradix]

/-- Reading a number is reading its parts one after the other. -/
theorem read_eq_iff {cs rest : List Char} {n : Number} :
    read cs = (n, rest) ↔ ∃ radix u v w, cutInteger cs = (radix, ⟨n.integer, u⟩) ∧
      cutFraction radix u = ⟨n.fraction, v⟩ ∧ cutExponent radix v = ⟨n.exponent, w⟩ ∧
      cutSuffix w = ⟨n.suffix, rest⟩ := by
  constructor
  · intro h
    obtain ⟨rfl, rfl⟩ := Prod.mk.inj h
    exact ⟨_, _, _, _, rfl, rfl, rfl, rfl⟩
  · rintro ⟨radix, u, v, w, h₁, h₂, h₃, h₄⟩
    simp [read, h₁, h₂, h₃, h₄]

/-- A number that ends before the cut is read as before, part by part. -/
theorem read_of_append {n : Number} {rest more : List Char}
    (h : read (n.text ++ rest ++ more) = (n, rest ++ more)) : read (n.text ++ rest) = (n, rest) := by
  obtain ⟨radix, u, v, w, h₁, h₂, h₃, h₄⟩ := read_eq_iff.1 h
  -- the parts and the rest are laid end to end
  have hw : w = n.suffix ++ rest ++ more := by
    rw [← whole_cutSuffix w, h₄, Cut.whole, List.append_assoc]
  have hv : v = n.exponent ++ (n.suffix ++ rest) ++ more := by
    rw [← whole_cutExponent radix v, h₃, Cut.whole, hw]
    simp
  have hu : u = n.fraction ++ (n.exponent ++ (n.suffix ++ rest)) ++ more := by
    rw [← whole_cutFraction radix u, h₂, Cut.whole, hv]
    simp
  have htext : n.text ++ rest
      = n.integer ++ (n.fraction ++ (n.exponent ++ (n.suffix ++ rest))) := by
    simp [text]
  subst hu hv hw
  rw [htext] at h₁ ⊢
  have h₁' := (online_cutInteger _).of_append whole_cutInteger (by rw [h₁])
  have h₂' := (online_cutFraction radix _).of_append (whole_cutFraction radix)
    (by rw [h₂])
  have h₃' := (online_cutExponent radix _).of_append (whole_cutExponent radix)
    (by rw [h₃])
  have h₄' := (online_cutSuffix _).of_append whole_cutSuffix (by rw [h₄])
  by_cases hr : n.fraction ++ (n.exponent ++ (n.suffix ++ rest)) = []
  · -- nothing follows the integer part, so the radix does not matter
    obtain ⟨hf, he, hs, hrest⟩ : n.fraction = [] ∧ n.exponent = [] ∧ n.suffix = [] ∧ rest = [] := by
      simpa using hr
    rw [hr] at h₁' ⊢
    refine read_eq_iff.2 ⟨_, [], [], [], Prod.ext rfl h₁', ?_, ?_, ?_⟩
    · rw [hf]; rfl
    · rw [he]; rfl
    · rw [hs, hrest]; rfl
  · have hradix : (cutInteger (n.integer ++
        (n.fraction ++ (n.exponent ++ (n.suffix ++ rest))))).1 = radix := by
      rw [← radix_append more (by rw [h₁']; exact hr), h₁]
    rw [← hradix] at h₂' h₃'
    exact read_eq_iff.2 ⟨_, _, _, _, Prod.ext rfl h₁', h₂', h₃', h₄'⟩

theorem starts_append {cs : List Char} (more : List Char) (h : starts cs = true) :
    starts (cs ++ more) = true := by
  match cs with
  | [] => simp [starts] at h
  | [c] =>
      obtain h : c.isDigit = true := by simpa [starts] using h
      simp [starts, h]
  | c :: d :: cs => exact h

/-- A number that starts with a point has at least one digit behind it. -/
theorem exists_taken_cut_point {cs : List Char} (h : starts ('.' :: cs) = true) :
    ∃ d tail, (cut ('.' :: cs)).taken = '.' :: d :: tail := by
  obtain ⟨d, hd, hdigit⟩ : ∃ d, cs.head? = some d ∧ d.isDigit = true := by
    simpa [starts, Option.any_eq_true] using h
  cases cs with
  | nil => simp at hd
  | cons e cs =>
      obtain rfl : e = d := by simpa using hd
      have hrun : isDigit e = true := by simp [isDigit, hdigit]
      have hinteger : cutInteger ('.' :: e :: cs) = (.decimal, ⟨[], '.' :: e :: cs⟩) := by
        simp [cutInteger, Cut.run, isDigit]
      simp [cut, read, text, hinteger, cutFraction, Radix.isDigit, Cut.run, hrun]

/-- A number that ends before the cut still starts as one. -/
theorem starts_of_append {n : Number} {rest more : List Char}
    (h : read (n.text ++ rest ++ more) = (n, rest ++ more))
    (hs : starts (n.text ++ rest ++ more) = true) : starts (n.text ++ rest) = true := by
  match hcs : n.text ++ rest with
  | [] =>
      have hne := taken_cut_ne_nil hs
      rw [cut, h] at hne
      exact absurd (List.append_eq_nil_iff.1 hcs).1 hne
  | c :: d :: cs => rw [hcs] at hs; exact hs
  | [c] =>
      rw [hcs] at hs
      by_cases hc : c.isDigit = true
      · simp [starts, hc]
      · -- a point starts a number only with a digit behind it, which is taken as well
        obtain rfl : c = '.' := by
          simp only [List.singleton_append, starts, hc, Bool.false_or, Bool.and_eq_true,
            beq_iff_eq] at hs
          exact hs.1
        have hread : read ('.' :: more) = (n, rest ++ more) := by
          rw [← List.singleton_append, ← hcs, h]
        obtain ⟨d, tail, htaken⟩ := exists_taken_cut_point hs
        have htext : n.text = '.' :: d :: tail := by simpa [cut, hread] using htaken
        simp [htext] at hcs

end Number

/-! ### Operators -/

namespace Operator

/-- The operator read is the first of the list whose spelling the text starts with. -/
theorem read?_eq_some_iff {cs rest : List Char} {o : Operator} :
    read? cs = some (o, rest) ↔ cs = o.spelling.toList ++ rest ∧
      ∃ before after, longestFirst = before ++ o :: after ∧
        ∀ p ∈ before, ¬ p.spelling.toList <+: cs := by
  have hpre : ∀ p : Operator, (if p.spelling.toList.isPrefixOf cs then
      some (p, cs.drop p.spelling.toList.length) else none) = none ↔ ¬ p.spelling.toList <+: cs := by
    intro p
    rw [← List.isPrefixOf_iff_prefix]
    split <;> simp_all
  constructor
  · intro h
    refine ⟨eq_append_of_read? h, ?_⟩
    obtain ⟨before, p, after, hl, hp, hb⟩ := List.findSome?_eq_some_iff.1 h
    obtain rfl : p = o := by
      split at hp
      · exact congrArg Prod.fst (Option.some.inj hp)
      · simp at hp
    exact ⟨before, after, hl, fun q hq => (hpre q).1 (hb q hq)⟩
  · rintro ⟨rfl, before, after, hl, hb⟩
    refine List.findSome?_eq_some_iff.2 ⟨before, o, after, hl, ?_, fun q hq => (hpre q).2 (hb q hq)⟩
    rw [if_pos (List.isPrefixOf_iff_prefix.2 (List.prefix_append _ _)), List.drop_left]

/-- There is no operator where the text starts with no spelling. -/
theorem read?_eq_none_iff {cs : List Char} :
    read? cs = none ↔ ∀ o : Operator, ¬ o.spelling.toList <+: cs := by
  rw [read?, List.findSome?_eq_none_iff]
  constructor
  · intro h o hpre
    simpa [List.isPrefixOf_iff_prefix.2 hpre] using h o (mem_longestFirst o)
  · intro h o _
    rw [if_neg (fun hpre => h o (List.isPrefixOf_iff_prefix.1 hpre))]

/-- An operator that ends before the cut is read as before. -/
theorem read?_of_append {o : Operator} {rest more : List Char}
    (h : read? (o.spelling.toList ++ rest ++ more) = some (o, rest ++ more)) :
    read? (o.spelling.toList ++ rest) = some (o, rest) := by
  obtain ⟨-, before, after, hl, hb⟩ := read?_eq_some_iff.1 h
  refine read?_eq_some_iff.2 ⟨rfl, before, after, hl, fun p hp hpre => hb p hp ?_⟩
  exact hpre.trans (List.prefix_append _ _)

theorem read?_eq_none_of_append {cs more : List Char} (h : read? (cs ++ more) = none) :
    read? cs = none :=
  read?_eq_none_iff.2 fun o hpre =>
    read?_eq_none_iff.1 h o (hpre.trans (List.prefix_append _ _))

end Operator

/-! ### Lexemes -/

namespace Lexeme

/-! ### A lexeme in front of the cut -/

variable {kind : Kind} {c : Char} {cs tail rest more front back : List Char}

theorem scan_letter_of_append (hl : isLetter c = true)
    (h : scan (c :: (tail ++ rest ++ more)) = (kind, ⟨c :: tail, rest ++ more⟩)) :
    scan (c :: (tail ++ rest)) = (kind, ⟨c :: tail, rest⟩) := by
  rw [scan_letter _ hl, Prod.mk.injEq] at h
  obtain ⟨hk, hcut⟩ := h
  have hword : Word.cut (c :: tail ++ rest) = ⟨c :: tail, rest⟩ :=
    (Cut.online_run isWordChar _).of_append Word.whole_cut (congrArg Cut.taken hcut)
  rw [List.cons_append] at hword
  rw [hcut] at hk
  rw [scan_letter _ hl, hword, ← hk]

theorem scan_number_of_append (hl : isLetter c = false)
    (hn : Number.starts (c :: (tail ++ rest ++ more)) = true)
    (h : scan (c :: (tail ++ rest ++ more)) = (kind, ⟨c :: tail, rest ++ more⟩)) :
    scan (c :: (tail ++ rest)) = (kind, ⟨c :: tail, rest⟩) := by
  rw [scan_number hl hn, Number.cut, Prod.mk.injEq, Cut.mk.injEq] at h
  obtain ⟨hk, htext, hrest⟩ := h
  obtain ⟨n, hnum⟩ : ∃ n, n = (Number.read (c :: (tail ++ rest ++ more))).1 := ⟨_, rfl⟩
  rw [← hnum] at hk htext
  have hread : Number.read (n.text ++ rest ++ more) = (n, rest ++ more) := by
    rw [htext]
    exact Prod.ext hnum.symm hrest
  have hstarts := Number.starts_of_append hread (by rw [htext]; exact hn)
  have hcut := Number.read_of_append hread
  rw [htext, List.cons_append] at hstarts hcut
  rw [scan_number hl hstarts, Number.cut, hcut, ← hk, ← htext]

theorem scan_quote_of_append (hq : IsQuote c)
    (h : scan (c :: (tail ++ rest ++ more)) = (kind, ⟨c :: tail, rest ++ more⟩)) :
    scan (c :: (tail ++ rest)) = (kind, ⟨c :: tail, rest⟩) := by
  rw [scan_quote _ hq, Prod.mk.injEq] at h
  obtain ⟨hk, hcut⟩ := h
  have htail : (Quoted.cut c (tail ++ rest ++ more)).taken = tail := by
    simpa using congrArg Cut.taken hcut
  rw [scan_quote _ hq, (Quoted.online_cut hq _).of_append (Quoted.whole_cut c) htail, hk]
  rfl

theorem scan_symbol_of_append (hl : isLetter c = false)
    (hn : Number.starts (c :: (tail ++ rest ++ more)) = false) (hq : ¬ IsQuote c)
    (h : scan (c :: (tail ++ rest ++ more)) = (kind, ⟨c :: tail, rest ++ more⟩)) :
    scan (c :: (tail ++ rest)) = (kind, ⟨c :: tail, rest⟩) := by
  have hn' : Number.starts (c :: (tail ++ rest)) = false := by
    refine Bool.eq_false_iff.2 ?_
    intro hs
    rw [← List.cons_append, Number.starts_append more hs] at hn
    exact absurd hn (by decide)
  cases ho : Operator.read? (c :: (tail ++ rest ++ more)) with
  | none =>
      rw [scan_illegal hl hn hq ho, Prod.mk.injEq, Cut.mk.injEq] at h
      obtain ⟨rfl, htail, -⟩ := h
      obtain rfl : tail = [] := (List.cons.inj htail).2.symm
      exact scan_illegal hl hn' hq (Operator.read?_eq_none_of_append ho)
  | some p =>
      obtain ⟨o, left⟩ := p
      rw [scan_operator hl hn hq ho, Prod.mk.injEq, Cut.mk.injEq] at h
      obtain ⟨rfl, htext, rfl⟩ := h
      have hread := @Operator.read?_of_append o rest more (by rw [htext]; exact ho)
      rw [htext, List.cons_append] at hread
      rw [scan_operator hl hn' hq hread, htext]

/-- **A lexeme that ends before the cut is read as before.** -/
theorem scan_of_append {taken : List Char}
    (h : scan (taken ++ rest ++ more) = (kind, ⟨taken, rest ++ more⟩)) (ht : taken ≠ []) :
    scan (taken ++ rest) = (kind, ⟨taken, rest⟩) := by
  cases taken with
  | nil => exact absurd rfl ht
  | cons c tail =>
      simp only [List.cons_append] at h ⊢
      cases hl : isLetter c with
      | true => exact scan_letter_of_append hl h
      | false =>
          by_cases hq : IsQuote c
          · exact scan_quote_of_append hq h
          · cases hn : Number.starts (c :: (tail ++ rest ++ more)) with
            | true => exact scan_number_of_append hl hn h
            | false => exact scan_symbol_of_append hl hn hq h

/-! ### A lexeme that the cut goes through -/

/-- A word that the cut goes through is read up to the cut. -/
theorem scan_letter_of_taken_append (hl : isLetter c = true)
    (h : scan (c :: cs ++ more) = (kind, ⟨c :: cs ++ back, rest⟩)) (hb : back ≠ []) :
    scan (c :: cs) = (.ofWord (String.ofList (c :: cs)), ⟨c :: cs, []⟩) := by
  rw [List.cons_append, scan_letter _ hl, Prod.mk.injEq] at h
  have hword : Word.cut (c :: cs) = ⟨c :: cs, []⟩ :=
    (Cut.online_run isWordChar _).of_taken_append Word.whole_cut (congrArg Cut.taken h.2) hb
  rw [scan_letter _ hl, hword]

/-- A literal that the cut goes through is read up to the cut. -/
theorem scan_quote_of_taken_append (hq : IsQuote c)
    (h : scan (c :: cs ++ more) = (kind, ⟨c :: cs ++ back, rest⟩)) (hb : back ≠ []) :
    scan (c :: cs) = (kind, ⟨c :: cs, []⟩) := by
  rw [List.cons_append, scan_quote _ hq, Prod.mk.injEq] at h
  have htaken : (Quoted.cut c (cs ++ more)).taken = cs ++ back := by
    simpa using congrArg Cut.taken h.2
  rw [scan_quote _ hq, (Quoted.online_cut hq cs).of_taken_append (Quoted.whole_cut c) htaken hb, h.1]
  rfl

end Lexeme

end Caret
