/-
**The grammar of numbers.**

What a number is can be said by a regular expression with four alternatives, and reading a number finds the
longest match of it.  The reader takes each part as far as it goes: first the digits, then a fraction, an
exponent and a suffix, of which the radix decides what they look like.  That no part takes what the next
one needs is because no letter of a part starts the parts behind it, although an `e` is a digit in one
radix and introduces an exponent in another; and the mark behind a zero decides among the alternatives.

Main definitions:

* `Caret.Number.grammar` — the text of a number, in four alternatives;
* `Caret.Number.Radix.digits`, `Caret.Number.Radix.marks`, `Caret.Number.Radix.leads` — what the radix
  decides: the digits, the letters that introduce an exponent, and those that set the radix.

Main results:

* `Caret.Number.isLongestMatch_decimal`, `Caret.Number.isLongestMatch_point`,
  `Caret.Number.isLongestMatch_hexadecimal`, `Caret.Number.isLongestMatch_small` — the text of a number is
  the longest match of its alternative;
* `Caret.Number.isLongestMatch_cut` — **the text of a number is the longest match of the grammar**.
-/

import Caret.Proofs.Cutoff
import Caret.Proofs.MaximalMunch

set_option relaxedAutoImplicit false
set_option autoImplicit false

namespace Caret

open RegularExpression

namespace Number

/-! ### The grammar -/

/-- Decimal digits and underscores. -/
def digits : RegularExpression Char := star (oneOf "0123456789_".toList)

/-- Hexadecimal digits and underscores. -/
def hexDigits : RegularExpression Char := star (oneOf "0123456789abcdefABCDEF_".toList)

/-- A fraction that may be missing. -/
def fractionOf (ds : RegularExpression Char) : RegularExpression Char := perhaps (oneOf ['.'] * ds)

/-- An exponent that may be missing. -/
def exponentOf (marks : List Char) : RegularExpression Char :=
  perhaps (oneOf marks * (perhaps (oneOf ['+', '-']) * digits))

/-- The suffix of an imaginary number. -/
def suffixOf : RegularExpression Char := perhaps (oneOf ['i'])

/-- A number without a mark for its radix, which starts with a digit:
`[0-9][0-9_]*(\.[0-9_]*)?([eE][+-]?[0-9_]*)?i?`. -/
def decimalNumber : RegularExpression Char :=
  oneOf "0123456789".toList *
    (digits * (fractionOf digits * (exponentOf ['e', 'E'] * suffixOf)))

/-- A number that starts with a point: `\.[0-9][0-9_]*([eE][+-]?[0-9_]*)?i?`. -/
def pointNumber : RegularExpression Char :=
  oneOf ['.'] *
    (oneOf "0123456789".toList * (digits * (exponentOf ['e', 'E'] * suffixOf)))

/-- A hexadecimal number: `0[xX][0-9a-fA-F_]*(\.[0-9a-fA-F_]*)?([pP][+-]?[0-9_]*)?i?`. -/
def hexadecimalNumber : RegularExpression Char :=
  oneOf ['0'] *
    (oneOf ['x', 'X'] * (hexDigits * (fractionOf hexDigits * (exponentOf ['p', 'P'] * suffixOf))))

/-- An octal or a binary number, of which decimal digits are read: `0[oObB][0-9_]*i?`. -/
def smallNumber : RegularExpression Char :=
  oneOf ['0'] * (oneOf ['o', 'O', 'b', 'B'] * (digits * suffixOf))

/-- The text of a number. -/
def grammar : RegularExpression Char := decimalNumber + pointNumber + hexadecimalNumber + smallNumber

/-! ### The characters -/

/-- What holds of all ASCII characters, one by one. -/
theorem of_ascii {p : Char → Prop} (h : ∀ n < 0x80, p (Char.ofNat n)) {c : Char} (hc : c.toNat < 0x80) :
    p c := by
  have := h c.toNat hc
  rwa [Char.ofNat_toNat] at this

/-- The decimal digits. -/
theorem char_isDigit_iff (c : Char) : c.isDigit = true ↔ c ∈ "0123456789".toList := by
  constructor
  · intro h
    exact of_ascii (p := fun c => c.isDigit = true → c ∈ "0123456789".toList) (by decide)
      (Unicode.toNat_lt_of_isDigit h) h
  · have hall : "0123456789".toList.all Char.isDigit = true := by decide
    exact List.all_eq_true.1 hall c

/-- What stands among decimal digits. -/
theorem isDigit_iff (c : Char) : isDigit c = true ↔ c ∈ "0123456789_".toList := by
  have hsplit : "0123456789_".toList = "0123456789".toList ++ ['_'] := by decide
  rw [hsplit, List.mem_append, ← char_isDigit_iff, isDigit, Bool.or_eq_true, beq_iff_eq,
    List.mem_singleton, or_comm]

/-- What stands among hexadecimal digits. -/
theorem isHexDigit_iff (c : Char) : isHexDigit c = true ↔ c ∈ "0123456789abcdefABCDEF_".toList := by
  constructor
  · intro h
    refine of_ascii (p := fun c => isHexDigit c = true → c ∈ "0123456789abcdefABCDEF_".toList) (by decide)
      ?_ h
    have hle : ∀ d e : Char, d ≤ e → d.toNat ≤ e.toNat := fun d e => Char.le_def.1
    simp only [isHexDigit, isDigit, Bool.or_eq_true, Bool.and_eq_true, beq_iff_eq,
      decide_eq_true_iff] at h
    rcases h with ((rfl | h) | ⟨-, h⟩) | ⟨-, h⟩
    · decide
    · exact Unicode.toNat_lt_of_isDigit h
    · exact (hle _ _ h).trans_lt (by decide)
    · exact (hle _ _ h).trans_lt (by decide)
  · have hall : "0123456789abcdefABCDEF_".toList.all isHexDigit = true := by decide
    exact List.all_eq_true.1 hall c

/-! ### The parts -/

/-- The digits of a radix. -/
def Radix.digits : Radix → RegularExpression Char
  | hexadecimal => hexDigits
  | _ => Number.digits

/-- The letters that introduce an exponent, where the radix allows one. -/
def Radix.marks : Radix → List Char
  | hexadecimal => ['p', 'P']
  | _ => ['e', 'E']

variable {radix : Radix}

/-- The digits are read as far as they go. -/
theorem isLongestMatch_digits (radix : Radix) (cs : List Char) :
    IsLongestMatch radix.digits cs (Cut.run radix.isDigit cs).taken := by
  cases radix with
  | hexadecimal => exact isLongestMatch_run isHexDigit_iff cs
  | _ => exact isLongestMatch_run isDigit_iff cs

/-- So is the fraction. -/
theorem isLongestMatch_fraction (hr : radix ≠ .small) (cs : List Char) :
    IsLongestMatch (fractionOf radix.digits) cs (cutFraction radix cs).taken := by
  have hfirsts : firsts (fractionOf radix.digits) = ['.'] := rfl
  cases cs with
  | nil => exact isLongestMatch_nil rfl (by simp)
  | cons c cs =>
      by_cases hc : c = '.'
      · subst hc
        rw [cutFraction, if_neg hr]
        exact ((isLongestMatch_digits radix cs).cons (by simp)).perhaps
      · rw [cutFraction_stop fun h => hc h.1]
        exact isLongestMatch_nil rfl (by simp [hfirsts, hc])

/-- So are the sign and the digits of an exponent. -/
theorem isLongestMatch_signed (cs : List Char) :
    IsLongestMatch (perhaps (oneOf ['+', '-']) * digits) cs (cutSigned cs).taken := by
  have hsep : apart (letters (perhaps (oneOf ['+', '-']))) (firsts digits) = true := by decide
  have hdigits : ∀ cs, IsLongestMatch digits cs (Cut.run isDigit cs).taken :=
    isLongestMatch_digits .decimal
  cases cs with
  | nil => exact isLongestMatch_nil rfl (by simp)
  | cons c cs =>
      rw [cutSigned]
      split
      · next hc =>
          have hsign : IsLongestMatch (perhaps (oneOf ['+', '-'])) (c :: cs) [c] :=
            (isLongestMatch_oneOf (by simpa using hc)).perhaps
          exact hsign.mul rfl (hdigits cs) hsep
      · next hc =>
          have hsign : IsLongestMatch (perhaps (oneOf ['+', '-'])) (c :: cs) [] :=
            isLongestMatch_nil rfl (by simpa using hc)
          exact hsign.mul rfl (hdigits (c :: cs)) hsep

theorem isExponentMark_iff (hr : radix ≠ .small) (c : Char) :
    radix.isExponentMark c = true ↔ c ∈ radix.marks := by
  cases radix with
  | small => exact absurd rfl hr
  | _ => simp [Radix.isExponentMark, Radix.marks]

/-- So is the exponent. -/
theorem isLongestMatch_exponent (hr : radix ≠ .small) (cs : List Char) :
    IsLongestMatch (exponentOf radix.marks) cs (cutExponent radix cs).taken := by
  cases cs with
  | nil => exact isLongestMatch_nil rfl (by simp)
  | cons c cs =>
      rw [cutExponent]
      split
      · next hc =>
          exact ((isLongestMatch_signed cs).cons ((isExponentMark_iff hr c).1 hc)).perhaps
      · next hc =>
          refine isLongestMatch_nil rfl ?_
          simpa [exponentOf, ← isExponentMark_iff hr] using hc

/-- So is the suffix. -/
theorem isLongestMatch_suffix (cs : List Char) : IsLongestMatch suffixOf cs (cutSuffix cs).taken := by
  cases cs with
  | nil => exact isLongestMatch_nil rfl (by simp)
  | cons c cs =>
      by_cases hc : c = 'i'
      · subst hc
        exact (isLongestMatch_oneOf (by simp)).perhaps
      · rw [cutSuffix_stop hc]
        exact isLongestMatch_nil rfl (by simp [suffixOf, hc])

/-! ### What follows the digits -/

/-- The exponent and the suffix. -/
theorem isLongestMatch_exponent_suffix (hr : radix ≠ .small) (cs : List Char) :
    let exponent := cutExponent radix cs
    IsLongestMatch (exponentOf radix.marks * suffixOf) cs
      (exponent.taken ++ (cutSuffix exponent.rest).taken) := by
  refine (isLongestMatch_exponent hr cs).mul (whole_cutExponent radix cs) (isLongestMatch_suffix _) ?_
  cases radix <;> decide

/-- The fraction and what follows it. -/
theorem isLongestMatch_fraction_exponent (hr : radix ≠ .small) (cs : List Char) :
    let fraction := cutFraction radix cs
    let exponent := cutExponent radix fraction.rest
    IsLongestMatch (fractionOf radix.digits * (exponentOf radix.marks * suffixOf)) cs
      (fraction.taken ++ (exponent.taken ++ (cutSuffix exponent.rest).taken)) := by
  refine (isLongestMatch_fraction hr cs).mul (whole_cutFraction radix cs)
    (isLongestMatch_exponent_suffix hr _) ?_
  cases radix <;> decide

/-! ### The alternatives -/

/-- The text of a number, part by part. -/
theorem taken_cut (cs : List Char) :
    let integer := cutInteger cs
    let fraction := cutFraction integer.1 integer.2.rest
    let exponent := cutExponent integer.1 fraction.rest
    (cut cs).taken = integer.2.taken ++
      (fraction.taken ++ (exponent.taken ++ (cutSuffix exponent.rest).taken)) := by
  simp [cut, read, text]

/-- The marks behind a leading zero that set a radix. -/
def Radix.leads : Radix → List Char
  | decimal => []
  | hexadecimal => ['x', 'X']
  | small => ['o', 'O', 'b', 'B']

theorem ofMark?_eq_some_iff {mark : Char} : Radix.ofMark? mark = some radix ↔ mark ∈ radix.leads := by
  constructor
  · intro h
    unfold Radix.ofMark? at h
    split at h
    · next hx =>
        obtain rfl := Option.some.inj h
        simpa [Radix.leads] using hx
    · split at h
      · next hb =>
          obtain rfl := Option.some.inj h
          simpa [Radix.leads] using hb
      · exact absurd h (by simp)
  · have hall : radix.leads.all (fun mark => Radix.ofMark? mark = some radix) = true := by
      cases radix <;> decide
    exact fun hmark => of_decide_eq_true (List.all_eq_true.1 hall mark hmark)

/-- A number starts with a digit, with a point in front of a digit, or with a zero and a mark. -/
theorem starts_cases {cs : List Char} (h : starts cs = true) :
    (∃ c tail, cs = c :: tail ∧ c.isDigit = true ∧
      (c = '0' → ∀ mark ∈ tail.head?, Radix.ofMark? mark = none)) ∨
    (∃ d tail, cs = '.' :: d :: tail ∧ d.isDigit = true) ∨
    ∃ mark radix tail, cs = '0' :: mark :: tail ∧ Radix.ofMark? mark = some radix := by
  match cs, h with
  | c :: tail, h =>
      rw [starts, Bool.or_eq_true, Bool.and_eq_true, beq_iff_eq, Option.any_eq_true] at h
      rcases h with hc | ⟨rfl, d, hd, hdigit⟩
      · by_cases hmark : c = '0' → ∀ mark ∈ tail.head?, Radix.ofMark? mark = none
        · exact Or.inl ⟨c, tail, rfl, hc, hmark⟩
        · simp only [Classical.not_imp, not_forall] at hmark
          obtain ⟨rfl, mark, hhead, hsome⟩ := hmark
          obtain ⟨radix, hradix⟩ := Option.ne_none_iff_exists'.1 hsome
          obtain ⟨tail, rfl⟩ := List.head?_eq_some_iff.1 hhead
          exact Or.inr (Or.inr ⟨mark, radix, tail, rfl, hradix⟩)
      · obtain ⟨tail, rfl⟩ := List.head?_eq_some_iff.1 hd
        exact Or.inr (Or.inl ⟨d, tail, rfl, hdigit⟩)

section

variable {c mark : Char} {cs tail w : List Char}

/-- A number that starts with a digit and has no mark. -/
theorem isLongestMatch_decimal (hc : c.isDigit = true)
    (h : c = '0' → ∀ mark ∈ tail.head?, Radix.ofMark? mark = none) :
    IsLongestMatch decimalNumber (c :: tail) (cut (c :: tail)).taken := by
  have hradix : Radix.decimal ≠ .small := by decide
  have hrun : Cut.run isDigit (c :: tail) = (Cut.run isDigit tail).keep [c] := by
    simp [Cut.run, Cut.keep, isDigit, hc]
  rw [taken_cut, cutInteger_eq_run h, hrun]
  refine IsLongestMatch.cons ((char_isDigit_iff c).1 hc) ?_
  refine (isLongestMatch_digits .decimal tail).mul (Cut.whole_run _ _)
    (isLongestMatch_fraction_exponent hradix _) ?_
  decide

/-- A number that starts with a point. -/
theorem isLongestMatch_point (hc : c.isDigit = true) :
    IsLongestMatch pointNumber ('.' :: c :: tail) (cut ('.' :: c :: tail)).taken := by
  have hradix : Radix.decimal ≠ .small := by decide
  have hinteger : cutInteger ('.' :: c :: tail) = (.decimal, .nothing ('.' :: c :: tail)) := by
    simp [cutInteger, Cut.run, Cut.nothing, isDigit]
  have hfraction : cutFraction .decimal ('.' :: c :: tail) = (Cut.run isDigit tail).keep ['.', c] := by
    simp [cutFraction, Cut.run, Cut.keep, Radix.isDigit, isDigit, hc]
  rw [taken_cut, hinteger, Cut.rest_nothing, hfraction]
  refine IsLongestMatch.cons (by simp) (IsLongestMatch.cons ((char_isDigit_iff c).1 hc) ?_)
  refine (isLongestMatch_digits .decimal tail).mul (Cut.whole_run _ _)
    (isLongestMatch_exponent_suffix hradix _) ?_
  decide

/-- A number whose mark makes it hexadecimal. -/
theorem isLongestMatch_hexadecimal (h : Radix.ofMark? mark = some .hexadecimal) :
    IsLongestMatch hexadecimalNumber ('0' :: mark :: tail) (cut ('0' :: mark :: tail)).taken := by
  have hradix : Radix.hexadecimal ≠ .small := by decide
  rw [taken_cut, cutInteger_mark tail h]
  refine IsLongestMatch.cons (by simp) (IsLongestMatch.cons (ofMark?_eq_some_iff.1 h) ?_)
  refine (isLongestMatch_digits .hexadecimal tail).mul (Cut.whole_run _ _)
    (isLongestMatch_fraction_exponent hradix _) ?_
  decide

theorem cutFraction_small (cs : List Char) : cutFraction .small cs = .nothing cs := by
  cases cs with
  | nil => rfl
  | cons c cs => exact cutFraction_stop (fun h => h.2 rfl) cs

theorem cutExponent_small (cs : List Char) : cutExponent .small cs = .nothing cs := by
  cases cs <;> rfl

/-- A number whose mark makes it octal or binary. -/
theorem isLongestMatch_small (h : Radix.ofMark? mark = some .small) :
    IsLongestMatch smallNumber ('0' :: mark :: tail) (cut ('0' :: mark :: tail)).taken := by
  rw [taken_cut, cutInteger_mark tail h, cutFraction_small, Cut.rest_nothing, cutExponent_small]
  refine IsLongestMatch.cons (by simp) (IsLongestMatch.cons (ofMark?_eq_some_iff.1 h) ?_)
  refine (isLongestMatch_digits .small tail).mul (Cut.whole_run _ _) (isLongestMatch_suffix _) ?_
  decide

/-! ### The longest of all -/

theorem mem_grammar : w ∈ grammar.matches' ↔ ((w ∈ decimalNumber.matches' ∨ w ∈ pointNumber.matches') ∨
    w ∈ hexadecimalNumber.matches') ∨ w ∈ smallNumber.matches' := Iff.rfl

/-- What is matched by an alternative with a mark starts with a zero and this mark. -/
theorem ofMark?_of_prefix (radix : Radix) {r : RegularExpression Char}
    (hw : w ∈ (oneOf ['0'] * (oneOf radix.leads * r)).matches') (hpre : w <+: c :: tail) :
    c = '0' ∧ ∃ mark ∈ tail.head?, Radix.ofMark? mark = some radix := by
  obtain ⟨zero, hzero, back, hback, rfl⟩ := mem_oneOf_mul.1 hw
  obtain ⟨mark, hmark, rest, -, rfl⟩ := mem_oneOf_mul.1 hback
  obtain ⟨rfl, behind, rfl⟩ := List.cons_prefix_cons.1 hpre
  exact ⟨List.mem_singleton.1 hzero, mark, rfl, ofMark?_eq_some_iff.2 hmark⟩

/-- In front of a mark only the zero is a number without one. -/
theorem eq_zero_of_decimalNumber (hmark : Radix.ofMark? mark = some radix)
    (hw : w ∈ decimalNumber.matches') (hpre : w <+: '0' :: mark :: tail) : w = ['0'] := by
  obtain ⟨zero, -, back, hback, rfl⟩ := mem_oneOf_mul.1 hw
  obtain ⟨rfl, hpre'⟩ := List.cons_prefix_cons.1 hpre
  have hfirsts : apart radix.leads (firsts
      (digits * (fractionOf digits * (exponentOf ['e', 'E'] * suffixOf)))) = true := by
    cases radix <;> decide
  have hnil : back = [] := by
    refine eq_nil_of_firsts ?_ hback hpre'
    intro c hc
    obtain rfl := Option.some.inj hc
    exact not_mem_of_apart hfirsts (ofMark?_eq_some_iff.1 hmark)
  rw [hnil]

/-- Where a number is read behind a mark, the alternatives without one match the zero or nothing. -/
theorem prefix_cut_of_unmarked (hmark : Radix.ofMark? mark = some radix)
    (hw : w ∈ decimalNumber.matches' ∨ w ∈ pointNumber.matches') (hpre : w <+: '0' :: mark :: tail) :
    w <+: (cut ('0' :: mark :: tail)).taken := by
  rcases hw with hw | hw
  · obtain rfl := eq_zero_of_decimalNumber hmark hw hpre
    have hne : (cut ('0' :: mark :: tail)).taken ≠ [] := taken_cut_ne_nil rfl
    have hinitial : (cut ('0' :: mark :: tail)).taken <+: '0' :: mark :: tail :=
      ⟨_, whole_cut ('0' :: mark :: tail)⟩
    exact List.prefix_of_prefix_length_le hpre hinitial (List.length_pos_iff.2 hne)
  · exact absurd hpre (not_prefix_of_firsts rfl (by decide) hw)

/-- **The text of a number is the longest match of the grammar.** -/
theorem isLongestMatch_cut (h : starts cs = true) : IsLongestMatch grammar cs (cut cs).taken := by
  rcases starts_cases h with ⟨c, tail, rfl, hc, hnone⟩ | ⟨d, tail, rfl, hd⟩ |
    ⟨mark, radix, tail, rfl, hsome⟩
  · -- the point of the second alternative is not there, and neither is the mark of the others
    have hmarked : ∀ (radix : Radix) (r : RegularExpression Char) (v : List Char), v <+: c :: tail →
        v ∉ (oneOf ['0'] * (oneOf radix.leads * r)).matches' := by
      intro radix r v hpre hv
      obtain ⟨hzero, mark, hhead, hsome⟩ := ofMark?_of_prefix radix hv hpre
      simp [hnone hzero mark hhead] at hsome
    have hpoint : c ∉ firsts pointNumber := by
      rw [pointNumber, firsts_oneOf_mul, List.mem_singleton]
      rintro rfl
      exact absurd hc (by decide)
    refine (isLongestMatch_decimal hc hnone).of_alternative (fun v hv => ?_) fun v hv hpre => ?_
    · exact mem_grammar.2 (Or.inl (Or.inl (Or.inl hv)))
    · rcases mem_grammar.1 hv with ((hv | hv) | hv) | hv
      · exact Or.inl hv
      · exact absurd hpre (not_prefix_of_firsts rfl hpoint hv)
      · exact absurd hv (hmarked .hexadecimal _ v hpre)
      · exact absurd hv (hmarked .small _ v hpre)
  · -- no other alternative starts with a point
    refine (isLongestMatch_point hd).of_alternative (fun v hv => ?_) fun v hv hpre => ?_
    · exact mem_grammar.2 (Or.inl (Or.inl (Or.inr hv)))
    · rcases mem_grammar.1 hv with ((hv | hv) | hv) | hv
      · exact absurd hpre (not_prefix_of_firsts rfl (by decide) hv)
      · exact Or.inl hv
      · exact absurd hpre (not_prefix_of_firsts rfl (by decide) hv)
      · exact absurd hpre (not_prefix_of_firsts rfl (by decide) hv)
  · have hother : ∀ (other : Radix) (r : RegularExpression Char) (v : List Char), other ≠ radix →
        v <+: '0' :: mark :: tail → v ∉ (oneOf ['0'] * (oneOf other.leads * r)).matches' := by
      intro other r v hne hpre hv
      obtain ⟨-, mark', hhead, hsome'⟩ := ofMark?_of_prefix other hv hpre
      obtain rfl := Option.some.inj hhead
      exact hne (Option.some.inj (hsome'.symm.trans hsome))
    cases radix with
    | decimal => exact absurd (ofMark?_eq_some_iff.1 hsome) (by simp [Radix.leads])
    | hexadecimal =>
        refine (isLongestMatch_hexadecimal hsome).of_alternative (fun v hv => ?_) fun v hv hpre => ?_
        · exact mem_grammar.2 (Or.inl (Or.inr hv))
        · rcases mem_grammar.1 hv with (hv | hv) | hv
          · exact Or.inr (prefix_cut_of_unmarked hsome hv hpre)
          · exact Or.inl hv
          · exact absurd hv (hother .small _ v (by decide) hpre)
    | small =>
        refine (isLongestMatch_small hsome).of_alternative (fun v hv => ?_) fun v hv hpre => ?_
        · exact mem_grammar.2 (Or.inr hv)
        · rcases mem_grammar.1 hv with (hv | hv) | hv
          · exact Or.inr (prefix_cut_of_unmarked hsome hv hpre)
          · exact absurd hv (hother .hexadecimal _ v (by decide) hpre)
          · exact Or.inl hv

end

end Number

end Caret
