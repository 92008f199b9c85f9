/-
**The kind of a number.**

The reader of numbers knows the parts of the number that it has read, and takes the kind from them.  The
text of the number is enough to tell it: no letter that introduces one part occurs in another.  Only what
introduces the exponent depends on the radix, and the radix is told by the first two letters.

Main definitions:

* `Caret.Number.kindOf` — the kind of a number with a given text;
* `Caret.Number.HasParts` — the parts of a number look as its radix has it.

Main results:

* `Caret.Number.hasParts_read` — a number that was read has the parts of its radix;
* `Caret.Number.HasParts.kind_eq_kindOf` — such a number has the kind that its text tells;
* `Caret.number_longest` — **wherever a number starts, the longest match of the grammar is read, and its
  kind is told by its text**.
-/

import Caret.Proofs.NumberGrammar
import Caret.Proofs.Seen

set_option relaxedAutoImplicit false
set_option autoImplicit false

namespace Caret

open RegularExpression

namespace Number

/-! ### The kind that a text tells -/

/-- The letters that introduce the exponent of a number with this text. -/
def exponentMarks (text : List Char) : List Char :=
  if text.take 2 = ['0', 'x'] ∨ text.take 2 = ['0', 'X'] then ['p', 'P'] else ['e', 'E']

/-- The kind of a number with this text. -/
def kindOf (text : List Char) : Kind :=
  if text.getLast? = some 'i' then .imag
  else if '.' ∈ text ∨ (exponentMarks text).any (· ∈ text) = true then .float
  else .int

/-! ### The parts of a number that was read -/

variable {radix : Radix}

/-- The integer part of a number of a radix. -/
def Radix.integers : Radix → RegularExpression Char
  | decimal => Number.digits
  | radix => oneOf ['0'] * (oneOf radix.leads * radix.digits)

/-- The parts of a number look as the radix has it. -/
structure HasParts (radix : Radix) (n : Number) : Prop where
  integer : n.integer ∈ radix.integers.matches'
  fraction : n.fraction ∈ (fractionOf radix.digits).matches'
  exponent : n.exponent ∈ (exponentOf radix.marks).matches'
  suffix : n.suffix ∈ suffixOf.matches'

theorem taken_cutInteger_mem (cs : List Char) :
    (cutInteger cs).2.taken ∈ (cutInteger cs).1.integers.matches' := by
  unfold cutInteger
  split
  · next mark cs =>
      split
      · next radix hmark =>
          have hlead := ofMark?_eq_some_iff.1 hmark
          have hmarked := ((isLongestMatch_digits radix cs).cons hlead).cons (List.mem_singleton_self '0')
          cases radix with
          | decimal => exact absurd hlead (by simp [Radix.leads])
          | _ => exact hmarked.mem
      · exact (isLongestMatch_digits .decimal _).mem
  · exact (isLongestMatch_digits .decimal _).mem

/-- A number that was read has the parts of its radix. -/
theorem hasParts_read (cs : List Char) : HasParts (cutInteger cs).1 (read cs).1 := by
  refine ⟨taken_cutInteger_mem cs, ?_, ?_, (isLongestMatch_suffix _).mem⟩
  · by_cases hr : (cutInteger cs).1 = .small
    · rw [read]
      simp only [hr, cutFraction_small]
      exact mem_perhaps.2 (Or.inl rfl)
    · exact (isLongestMatch_fraction hr _).mem
  · by_cases hr : (cutInteger cs).1 = .small
    · rw [read]
      simp only [hr, cutExponent_small]
      exact mem_perhaps.2 (Or.inl rfl)
    · exact (isLongestMatch_exponent hr _).mem

section

variable {n : Number} {c : Char}

theorem mem_text : c ∈ n.text ↔ c ∈ n.integer ∨ c ∈ n.fraction ∨ c ∈ n.exponent ∨ c ∈ n.suffix := by
  simp [text]

/-- The fraction is there if there is a point. -/
theorem HasParts.fraction_ne_nil_iff (h : HasParts radix n) : n.fraction ≠ [] ↔ '.' ∈ n.text := by
  have hinteger : '.' ∉ n.integer := fun hc => absurd (mem_letters h.integer hc) (by cases radix <;> decide)
  have hexponent : '.' ∉ n.exponent :=
    fun hc => absurd (mem_letters h.exponent hc) (by cases radix <;> decide)
  have hsuffix : '.' ∉ n.suffix := fun hc => absurd (mem_letters h.suffix hc) (by decide)
  rw [ne_nil_iff_of_mem_perhaps h.fraction, mem_text]
  simp [hinteger, hexponent, hsuffix]

/-- The exponent is there if there is its mark. -/
theorem HasParts.exponent_ne_nil_iff (h : HasParts radix n) :
    n.exponent ≠ [] ↔ ∃ mark ∈ radix.marks, mark ∈ n.text := by
  have hinteger : apart radix.marks (letters radix.integers) = true := by cases radix <;> decide
  have hfraction : apart radix.marks (letters (fractionOf radix.digits)) = true := by
    cases radix <;> decide
  have hsuffix : apart radix.marks (letters suffixOf) = true := by cases radix <;> decide
  rw [ne_nil_iff_of_mem_perhaps h.exponent]
  refine exists_congr fun mark => and_congr_right fun hmark => ?_
  rw [mem_text]
  constructor
  · exact fun hc => Or.inr (Or.inr (Or.inl hc))
  · rintro (hc | hc | hc | hc)
    · exact absurd (mem_letters h.integer hc) (not_mem_of_apart hinteger hmark)
    · exact absurd (mem_letters h.fraction hc) (not_mem_of_apart hfraction hmark)
    · exact hc
    · exact absurd (mem_letters h.suffix hc) (not_mem_of_apart hsuffix hmark)

/-- The suffix is there if the last letter is. -/
theorem HasParts.suffix_ne_nil_iff (h : HasParts radix n) :
    n.suffix ≠ [] ↔ n.text.getLast? = some 'i' := by
  have hinteger : 'i' ∉ n.integer := fun hc => absurd (mem_letters h.integer hc) (by cases radix <;> decide)
  have hfraction : 'i' ∉ n.fraction :=
    fun hc => absurd (mem_letters h.fraction hc) (by cases radix <;> decide)
  have hexponent : 'i' ∉ n.exponent :=
    fun hc => absurd (mem_letters h.exponent hc) (by cases radix <;> decide)
  constructor
  · intro hne
    obtain ⟨i, hi, hsuffix⟩ := mem_oneOf.1 ((mem_perhaps.1 h.suffix).resolve_left hne)
    obtain rfl := List.mem_singleton.1 hi
    rw [text, hsuffix, List.getLast?_append]
    rfl
  · intro hlast hnil
    have hmem := mem_text.1 (List.mem_of_getLast? hlast)
    simp [hinteger, hfraction, hexponent, hnil] at hmem

/-- The text of a number is matched part by part. -/
theorem HasParts.text_mem (h : HasParts radix n) : n.text ∈
    (radix.integers * (fractionOf radix.digits * (exponentOf radix.marks * suffixOf))).matches' := by
  rw [text, List.append_assoc, List.append_assoc]
  exact Language.append_mem_mul h.integer
    (Language.append_mem_mul h.fraction (Language.append_mem_mul h.exponent h.suffix))

/-- The mark of the radix tells the marks of the exponent. -/
theorem HasParts.exponentMarks_text (h : HasParts radix n) : exponentMarks n.text = radix.marks := by
  by_cases hr : radix = .hexadecimal
  · subst hr
    obtain ⟨zero, hzero, back, hback, hinteger⟩ := mem_oneOf_mul.1 h.integer
    obtain ⟨mark, hmark, tail, -, rfl⟩ := mem_oneOf_mul.1 hback
    obtain rfl := List.mem_singleton.1 hzero
    have htake : n.text.take 2 = ['0', mark] := by simp [text, hinteger]
    have hlead : mark = 'x' ∨ mark = 'X' := by simpa [Radix.leads] using hmark
    rw [exponentMarks, htake, if_pos (by rcases hlead with rfl | rfl <;> simp)]
    rfl
  · -- in no other radix does an `x` occur
    have hletters : apart ['x', 'X'] (letters
        (radix.integers * (fractionOf radix.digits * (exponentOf radix.marks * suffixOf)))) = true := by
      cases radix with
      | hexadecimal => exact absurd rfl hr
      | _ => decide
    have hnone : ∀ mark ∈ ['x', 'X'], n.text.take 2 ≠ ['0', mark] := by
      intro mark hmark htake
      have hmem : mark ∈ n.text.take 2 := by rw [htake]; simp
      exact not_mem_of_apart hletters hmark (mem_letters h.text_mem (List.mem_of_mem_take hmem))
    rw [exponentMarks, if_neg (not_or.2 ⟨hnone 'x' (by simp), hnone 'X' (by simp)⟩)]
    cases radix with
    | hexadecimal => exact absurd rfl hr
    | _ => rfl

/-- The kind of a number can be read off its text. -/
theorem HasParts.kind_eq_kindOf (h : HasParts radix n) : n.kind = kindOf n.text := by
  simp only [kind, kindOf, h.suffix_ne_nil_iff, h.fraction_ne_nil_iff, h.exponent_ne_nil_iff,
    h.exponentMarks_text, List.any_eq_true, decide_eq_true_iff]

end

end Number

/-! ### Where a number starts -/

/-- A letter starts no number. -/
theorem isLetter_of_starts {c : Char} {cs : List Char} (h : Number.starts (c :: cs) = true) :
    isLetter c = false := by
  have hnone : ".0123456789".toList.all (fun c => !isLetter c) = true := by decide
  suffices hc : c ∈ ".0123456789".toList by simpa using List.all_eq_true.1 hnone c hc
  rw [Number.starts, Bool.or_eq_true, Bool.and_eq_true, beq_iff_eq, Number.char_isDigit_iff] at h
  rcases h with h | ⟨rfl, -⟩
  · exact List.mem_cons_of_mem _ h
  · exact List.mem_cons_self

section

variable {text left : List Char} {l m : Lexer} {t : Lexeme}

/-- A move at the start of a number reads the longest match, whose text tells the kind. -/
theorem Lexer.Step.number (hl : Lexer.InText text l) (h : Lexer.Step l t m)
    (hleft : slice text t.start.offset (utf8Length text) = left) (hstarts : Number.starts left = true) :
    IsLongestMatch Number.grammar left t.token.text.toList ∧
      t.token.kind = Number.kindOf t.token.text.toList := by
  cases h with
  | newline _ _ hr =>
      obtain rfl := (hl.slice_behind hr).symm.trans hleft
      exact absurd hstarts (by simp [Number.starts])
  | lineEnd _ _ hr hat =>
      obtain rfl := (hl.slice_behind hr).symm.trans hleft
      rcases hat with rfl | ⟨⟨x, tail, rfl, -⟩, -⟩
      · exact absurd hstarts (by simp [Number.starts])
      · exact absurd hstarts (by simp [Number.starts])
  | @token gap span rest kind hr _ _ hs _ hscan =>
      obtain rfl := (hl.slice_behind hr).symm.trans hleft
      obtain ⟨c, tail, rfl⟩ := List.exists_cons_of_ne_nil hs
      rw [List.cons_append] at hstarts hscan
      rw [Lexeme.scan_number (isLetter_of_starts hstarts) hstarts] at hscan
      obtain ⟨hkind, hcut⟩ := Prod.mk.inj hscan
      have htext : (Number.read (c :: (tail ++ rest))).1.text = c :: tail := congrArg Cut.taken hcut
      have hlongest := Number.isLongestMatch_cut hstarts
      rw [Number.cut, htext] at hlongest
      have htells := (Number.hasParts_read (c :: (tail ++ rest))).kind_eq_kindOf
      rw [htext, hkind] at htells
      rw [String.toList_ofList]
      exact ⟨hlongest, htells⟩

end

/-- **Wherever a number starts, the longest match of the grammar is read, and its kind is told by its
text.** -/
theorem number_longest (source : String) : ∀ t ∈ Lexeme.ofText source.toList,
    let left := slice source.toList t.start.offset (utf8Length source.toList)
    Number.starts left = true → IsLongestMatch Number.grammar left t.token.text.toList ∧
      t.token.kind = Number.kindOf t.token.text.toList := by
  intro t ht
  obtain ⟨k, m, hk, h⟩ := Lexer.exists_step_of_mem (Lexer.inText_ofText _) ht
  exact h.number hk rfl

/-- An `e` is a digit of a hexadecimal number, which takes neither a sign behind it nor a second
exponent. -/
theorem number_longest_hexadecimal :
    let text := "0x.eP-1_e+2".toList
    let t : Lexeme := ⟨⟨.float, "0x.eP-1_"⟩, ⟨1, 1, 0⟩, ⟨1, 9, 8⟩⟩
    t ∈ Lexeme.ofText text ∧ Number.starts text = true ∧
      IsLongestMatch Number.grammar text "0x.eP-1_".toList ∧
      Kind.float = Number.kindOf "0x.eP-1_".toList := by
  intro text t
  have hmem : t ∈ Lexeme.ofText text := by
    have hfirst : Lexeme.ofText text = t :: Lexer.lexemes ⟨['e', '+', '2'], ⟨1, 9, 8⟩, true⟩ :=
      Lexer.lexemes_of_step (Lexer.step_of_next (by decide))
    rw [hfirst]
    exact List.mem_cons_self
  obtain ⟨hlongest, hkind⟩ := number_longest "0x.eP-1_e+2" t hmem (by decide)
  exact ⟨hmem, by decide, hlongest, hkind⟩

end Caret
