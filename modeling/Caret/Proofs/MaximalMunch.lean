/-
**The longest match of a regular expression.**

A reader that takes as much as it can, part by part, need not find the longest match of the expression as
a whole: a part may take what the next one would have needed.  It does find it where a letter of one part
never starts the next one.  For that it is enough to look at the letters that occur in an expression, and
at those that a match may start with, and both are read off the syntax tree.

Main definitions:

* `Caret.letters`, `Caret.firsts` — the letters of an expression, and those that a match may start with;
* `Caret.apart` — two lists of letters have none in common;
* `Caret.oneOf`, `Caret.perhaps` — one of several letters, and an expression that may be missing;
* `Caret.IsLongestMatch` — the longest initial part of a text that an expression matches.

Main results:

* `Caret.mem_letters`, `Caret.mem_firsts` — what a match consists of, and what it starts with;
* `Caret.IsLongestMatch.mul` — **two longest matches make one**, if no letter of the first expression
  starts the second;
* `Caret.isLongestMatch_run` — the longest match of a repeated letter is a run.
-/

import Mathlib.Computability.RegularExpressions
import Caret.Proofs.Step

set_option relaxedAutoImplicit false
set_option autoImplicit false

namespace Caret

open RegularExpression
open scoped Computability

/-! ### Letters -/

/-- The letters that occur in an expression. -/
def letters : RegularExpression Char → List Char
  | .zero => []
  | .epsilon => []
  | .char c => [c]
  | .plus r s => letters r ++ letters s
  | .comp r s => letters r ++ letters s
  | .star r => letters r

/-- The letters that a match of an expression may start with. -/
def firsts : RegularExpression Char → List Char
  | .zero => []
  | .epsilon => []
  | .char c => [c]
  | .plus r s => firsts r ++ firsts s
  | .comp r s => if r.matchEpsilon then firsts r ++ firsts s else firsts r
  | .star r => firsts r

/-- Have two lists of letters none in common? -/
def apart (cs ds : List Char) : Bool := cs.all fun c => !ds.contains c

section

variable {r s : RegularExpression Char} {c : Char} {w : List Char}

theorem not_mem_of_apart {cs ds : List Char} (h : apart cs ds = true) (hc : c ∈ cs) : c ∉ ds := by
  have := List.all_eq_true.1 h c hc
  simpa using this

theorem matchEpsilon_iff : r.matchEpsilon = true ↔ [] ∈ r.matches' := rmatch_iff_matches' r []

/-- A match consists of the letters of the expression. -/
theorem mem_letters (hw : w ∈ r.matches') (hc : c ∈ w) : c ∈ letters r := by
  induction r generalizing w with
  | zero => exact absurd hw (Language.notMem_zero w)
  | epsilon =>
      obtain rfl := (Language.mem_one w).1 hw
      simp at hc
  | char d =>
      obtain rfl : w = [d] := hw
      simpa [letters] using hc
  | plus r s ihr ihs =>
      rcases hw with hw | hw
      · exact List.mem_append_left _ (ihr hw hc)
      · exact List.mem_append_right _ (ihs hw hc)
  | comp r s ihr ihs =>
      obtain ⟨u, hu, v, hv, rfl⟩ := Language.mem_mul.1 hw
      rcases List.mem_append.1 hc with hc | hc
      · exact List.mem_append_left _ (ihr hu hc)
      · exact List.mem_append_right _ (ihs hv hc)
  | star r ih =>
      obtain ⟨us, rfl, hus⟩ := Language.mem_kstar.1 hw
      obtain ⟨u, hu, hc⟩ := List.mem_flatten.1 hc
      exact ih (hus u hu) hc

/-- A match starts with one of the first letters. -/
theorem mem_firsts (hw : c :: w ∈ r.matches') : c ∈ firsts r := by
  induction r generalizing w with
  | zero => exact absurd hw (Language.notMem_zero _)
  | epsilon => exact absurd ((Language.mem_one _).1 hw) (by simp)
  | char d =>
      obtain ⟨rfl, -⟩ := List.cons.inj (show c :: w = [d] from hw)
      simp [firsts]
  | plus r s ihr ihs =>
      rcases hw with hw | hw
      · exact List.mem_append_left _ (ihr hw)
      · exact List.mem_append_right _ (ihs hw)
  | comp r s ihr ihs =>
      obtain ⟨u, hu, v, hv, huv⟩ := Language.mem_mul.1 hw
      rw [firsts]
      cases u with
      | nil =>
          obtain rfl : v = c :: w := huv
          rw [if_pos (matchEpsilon_iff.2 hu)]
          exact List.mem_append_right _ (ihs hv)
      | cons d u =>
          obtain ⟨rfl, -⟩ := List.cons.inj huv
          split
          · exact List.mem_append_left _ (ihr hu)
          · exact ihr hu
  | star r ih =>
      obtain ⟨us, hus, hne⟩ := Language.mem_kstar_iff_exists_nonempty.1 hw
      -- the first match that is repeated is not empty
      cases us with
      | nil => exact absurd hus (by simp)
      | cons u us =>
          obtain ⟨hu, hnil⟩ := hne u List.mem_cons_self
          obtain ⟨d, tail, rfl⟩ := List.exists_cons_of_ne_nil hnil
          obtain ⟨rfl, -⟩ := List.cons.inj hus
          exact ih hu

/-- A match is empty where none can start. -/
theorem eq_nil_of_firsts {cs : List Char} (hc : ∀ c ∈ cs.head?, c ∉ firsts r) (hw : w ∈ r.matches')
    (hpre : w <+: cs) : w = [] := by
  cases w with
  | nil => rfl
  | cons c w =>
      obtain ⟨tail, rfl⟩ := hpre
      exact absurd (mem_firsts hw) (hc c rfl)

/-- An expression that matches something, but starts with other letters, matches no initial part. -/
theorem not_prefix_of_firsts (hr : r.matchEpsilon = false) (hc : c ∉ firsts r) {cs : List Char}
    (hw : w ∈ r.matches') : ¬ w <+: c :: cs := by
  intro hpre
  obtain rfl := eq_nil_of_firsts (by simpa using hc) hw hpre
  simp [matchEpsilon_iff.2 hw] at hr

end

/-! ### One of several letters -/

/-- One of several letters. -/
def oneOf (cs : List Char) : RegularExpression Char := cs.foldr (fun c r => char c + r) 0

/-- An expression that may be missing. -/
def perhaps (r : RegularExpression Char) : RegularExpression Char := 1 + r

section

variable {r : RegularExpression Char} {cs w : List Char}

theorem mem_oneOf : w ∈ (oneOf cs).matches' ↔ ∃ c ∈ cs, w = [c] := by
  induction cs with
  | nil => simp [oneOf, Language.notMem_zero]
  | cons c cs ih =>
      have hcons : w ∈ (oneOf (c :: cs)).matches' ↔ w = [c] ∨ w ∈ (oneOf cs).matches' := Iff.rfl
      rw [hcons, ih]
      simp

theorem mem_oneOf_mul :
    w ∈ (oneOf cs * r).matches' ↔ ∃ c ∈ cs, ∃ tail ∈ r.matches', w = c :: tail := by
  rw [matches'_mul, Language.mem_mul]
  constructor
  · rintro ⟨u, hu, tail, htail, rfl⟩
    obtain ⟨c, hc, rfl⟩ := mem_oneOf.1 hu
    exact ⟨c, hc, tail, htail, rfl⟩
  · rintro ⟨c, hc, tail, htail, rfl⟩
    exact ⟨[c], mem_oneOf.2 ⟨c, hc, rfl⟩, tail, htail, rfl⟩

theorem mem_star_oneOf : w ∈ (star (oneOf cs)).matches' ↔ ∀ c ∈ w, c ∈ cs := by
  rw [matches'_star, Language.mem_kstar]
  constructor
  · rintro ⟨us, rfl, hus⟩ c hc
    obtain ⟨u, hu, hc⟩ := List.mem_flatten.1 hc
    obtain ⟨d, hd, rfl⟩ := mem_oneOf.1 (hus u hu)
    rwa [List.mem_singleton.1 hc]
  · intro h
    refine ⟨w.map fun c => [c], (List.flatMap_singleton' w).symm, fun u hu => ?_⟩
    obtain ⟨c, hc, rfl⟩ := List.mem_map.1 hu
    exact mem_oneOf.2 ⟨c, h c hc, rfl⟩

theorem mem_perhaps : w ∈ (perhaps r).matches' ↔ w = [] ∨ w ∈ r.matches' := Iff.rfl

/-- What may be missing is there if the letter is there that it starts with. -/
theorem ne_nil_iff_of_mem_perhaps (hw : w ∈ (perhaps (oneOf cs * r)).matches') :
    w ≠ [] ↔ ∃ c ∈ cs, c ∈ w := by
  constructor
  · intro hne
    obtain ⟨c, hc, tail, -, rfl⟩ := mem_oneOf_mul.1 ((mem_perhaps.1 hw).resolve_left hne)
    exact ⟨c, hc, List.mem_cons_self⟩
  · rintro ⟨c, -, hc⟩
    exact List.ne_nil_of_mem hc

@[simp] theorem matchEpsilon_oneOf (cs : List Char) : (oneOf cs).matchEpsilon = false := by
  induction cs with
  | nil => rfl
  | cons c cs ih => exact ih

@[simp] theorem firsts_oneOf (cs : List Char) : firsts (oneOf cs) = cs := by
  induction cs with
  | nil => rfl
  | cons c cs ih => exact congrArg (c :: ·) ih

@[simp] theorem firsts_oneOf_mul (cs : List Char) (r : RegularExpression Char) :
    firsts (oneOf cs * r) = cs := by
  have h : firsts (oneOf cs * r)
      = if (oneOf cs).matchEpsilon then firsts (oneOf cs) ++ firsts r else firsts (oneOf cs) := rfl
  rw [h, matchEpsilon_oneOf, if_neg Bool.false_ne_true, firsts_oneOf]

@[simp] theorem firsts_perhaps (r : RegularExpression Char) : firsts (perhaps r) = firsts r := rfl

end

/-! ### Longest matches -/

/-- The longest initial part of the text `cs` that the expression matches: every other one is an initial
part of it. -/
structure IsLongestMatch (r : RegularExpression Char) (cs w : List Char) : Prop where
  mem : w ∈ r.matches'
  initial : w <+: cs
  longest : ∀ v ∈ r.matches', v <+: cs → v <+: w

section

variable {r s : RegularExpression Char} {c : Char} {cs u v rest : List Char}

/-- Where no match can start, the longest one is empty. -/
theorem isLongestMatch_nil (hr : r.matchEpsilon = true) (h : ∀ c ∈ cs.head?, c ∉ firsts r) :
    IsLongestMatch r cs [] := by
  refine ⟨matchEpsilon_iff.1 hr, List.nil_prefix, fun v hv hpre => ?_⟩
  rw [eq_nil_of_firsts h hv hpre]

/-- The longest match of a repeated letter is a run. -/
theorem isLongestMatch_run {p : Char → Bool} {ds : List Char} (hp : ∀ c, p c = true ↔ c ∈ ds)
    (cs : List Char) : IsLongestMatch (star (oneOf ds)) cs (cs.takeWhile p) := by
  refine ⟨mem_star_oneOf.2 fun c hc => (hp c).1 (List.mem_takeWhile_imp hc), List.takeWhile_prefix p, ?_⟩
  rintro v hv ⟨tail, rfl⟩
  rw [List.takeWhile_append_of_pos fun c hc => (hp c).2 (mem_star_oneOf.1 hv c hc)]
  exact List.prefix_append _ _

/-- A letter that may stand at the front of the text is the longest match there. -/
theorem isLongestMatch_oneOf {ds : List Char} (hc : c ∈ ds) : IsLongestMatch (oneOf ds) (c :: cs) [c] := by
  refine ⟨mem_oneOf.2 ⟨c, hc, rfl⟩, List.cons_prefix_cons.2 ⟨rfl, List.nil_prefix⟩, fun v hv hpre => ?_⟩
  obtain ⟨d, hd, rfl⟩ := mem_oneOf.1 hv
  obtain ⟨rfl, -⟩ := List.cons_prefix_cons.1 hpre
  exact List.prefix_rfl

/-- A letter in front of a longest match. -/
theorem IsLongestMatch.cons {ds : List Char} (hc : c ∈ ds) (h : IsLongestMatch r cs u) :
    IsLongestMatch (oneOf ds * r) (c :: cs) (c :: u) := by
  refine ⟨mem_oneOf_mul.2 ⟨c, hc, u, h.mem, rfl⟩, List.cons_prefix_cons.2 ⟨rfl, h.initial⟩, ?_⟩
  intro v hv hpre
  obtain ⟨d, hd, tail, htail, rfl⟩ := mem_oneOf_mul.1 hv
  obtain ⟨rfl, htail'⟩ := List.cons_prefix_cons.1 hpre
  exact List.cons_prefix_cons.2 ⟨rfl, h.longest tail htail htail'⟩

/-- What may be missing is not, if it is there. -/
theorem IsLongestMatch.perhaps (h : IsLongestMatch r cs u) : IsLongestMatch (perhaps r) cs u := by
  refine ⟨mem_perhaps.2 (Or.inr h.mem), h.initial, fun v hv hpre => ?_⟩
  rcases mem_perhaps.1 hv with rfl | hv
  · exact List.nil_prefix
  · exact h.longest v hv hpre

/-- A longest match is one of a further expression, if whatever else that matches is shorter. -/
theorem IsLongestMatch.of_alternative (h : IsLongestMatch r cs u)
    (hrs : ∀ v ∈ r.matches', v ∈ s.matches')
    (hsr : ∀ v ∈ s.matches', v <+: cs → v ∈ r.matches' ∨ v <+: u) : IsLongestMatch s cs u := by
  refine ⟨hrs u h.mem, h.initial, fun v hv hpre => ?_⟩
  rcases hsr v hv hpre with hv | hv
  · exact h.longest v hv hpre
  · exact hv

/-- **Two longest matches make one**, if no letter of the first expression starts the second. -/
theorem IsLongestMatch.mul (hr : IsLongestMatch r cs u) (hcs : u ++ rest = cs)
    (hs : IsLongestMatch s rest v) (hsep : apart (letters r) (firsts s) = true) :
    IsLongestMatch (r * s) cs (u ++ v) := by
  subst hcs
  refine ⟨Language.append_mem_mul hr.mem hs.mem, (List.prefix_append_right_inj u).2 hs.initial, ?_⟩
  intro w hw hpre
  obtain ⟨a, ha, b, hb, rfl⟩ := Language.mem_mul.1 hw
  obtain ⟨back, rfl⟩ := hr.longest a ha ((List.prefix_append a b).trans hpre)
  rw [List.append_assoc, List.prefix_append_right_inj] at hpre
  rw [List.append_assoc, List.prefix_append_right_inj]
  cases back with
  | nil => exact hs.longest b hb hpre
  | cons d back =>
      cases b with
      | nil => exact List.nil_prefix
      | cons e b =>
          -- the first match stops early, and the second starts with the letter that it leaves out
          obtain ⟨rfl, -⟩ := List.cons_prefix_cons.1 hpre
          exact absurd (mem_firsts hb) (not_mem_of_apart hsep (mem_letters hr.mem (by simp)))

end

end Caret
