/-
**The longest operator.**

The spelling of an operator may begin with the spelling of another one, as `<<=` begins with `<<` and
with `<`.  The reader tries the operators in order of falling length, and by that it reads the longest
one that the text starts with.  So an operator is read as soon as the character behind it is none by
which a longer spelling goes on, and it takes no more than this one character to know.

Main definitions:

* `Caret.Operator.goesOn` — the characters by which longer spellings go on.

Main results:

* `Caret.Operator.spelling_injective` — an operator is known by its spelling;
* `Caret.Operator.read?_eq_some_iff_longest` — **the operator read is the longest one**;
* `Caret.Operator.read?_append` — an operator is read if no longer one goes on behind it.
-/

import Mathlib.Data.List.Nodup
import Caret.Proofs.Cutoff

set_option relaxedAutoImplicit false
set_option autoImplicit false

namespace Caret.Operator

/-! ### Spellings -/

theorem nodup_spelling : (all.map spelling).Nodup := by decide +kernel

/-- An operator is known by its spelling. -/
theorem spelling_injective {o p : Operator} (h : o.spelling = p.spelling) : o = p :=
  List.inj_on_of_nodup_map nodup_spelling (mem_all o) (mem_all p) h

theorem pairwise_longestFirst :
    longestFirst.Pairwise fun o p => p.spelling.toList.length ≤ o.spelling.toList.length := by
  decide +kernel

/-! ### The longest match -/

variable {o : Operator} {cs rest : List Char}

/-- The operator read is the longest one that the text starts with. -/
theorem read?_eq_some_iff_longest : read? cs = some (o, rest) ↔ cs = o.spelling.toList ++ rest ∧
    ∀ p : Operator, p.spelling.toList <+: cs →
      p.spelling.toList.length ≤ o.spelling.toList.length := by
  rw [read?_eq_some_iff]
  refine and_congr_right fun hcs => ⟨?_, fun hlongest => ?_⟩
  · rintro ⟨before, after, hl, hbefore⟩ p hp
    have hpair := pairwise_longestFirst
    rw [hl] at hpair
    have hmem := mem_longestFirst p
    rw [hl] at hmem
    rcases List.mem_append.1 hmem with hmem | hmem
    · exact absurd hp (hbefore p hmem)
    · rcases List.mem_cons.1 hmem with rfl | hmem
      · exact Nat.le_refl _
      · exact (List.pairwise_cons.1 (List.pairwise_append.1 hpair).2.1).1 p hmem
  · obtain ⟨before, after, hl, hnot⟩ := List.eq_append_cons_of_mem (mem_longestFirst o)
    refine ⟨before, after, hl, fun p hp hpre => hnot ?_⟩
    have hpair := pairwise_longestFirst
    rw [hl] at hpair
    -- an earlier match would be as long, so it would be the same part of the text
    have hlen : p.spelling.toList.length = o.spelling.toList.length :=
      Nat.le_antisymm (hlongest p hpre) ((List.pairwise_append.1 hpair).2.2 p hp o List.mem_cons_self)
    have hpre' : o.spelling.toList <+: cs := hcs ▸ List.prefix_append _ _
    have heq : p.spelling.toList = o.spelling.toList :=
      (List.prefix_of_prefix_length_le hpre hpre' (Nat.le_of_eq hlen)).eq_of_length hlen
    rwa [← spelling_injective (String.toList_inj.1 heq)]

/-! ### What follows an operator -/

/-- The characters by which longer spellings go on where `o` ends. -/
def goesOn (o : Operator) : List Char :=
  all.filterMap fun p =>
    if o.spelling.toList.isPrefixOf p.spelling.toList then
      p.spelling.toList[o.spelling.toList.length]?
    else none

/-- An operator is read if no longer spelling goes on behind it. -/
theorem read?_append_of_not_isPrefix
    (h : ∀ p : Operator, ∀ c tail, p.spelling.toList = o.spelling.toList ++ c :: tail →
      ¬ c :: tail <+: rest) : read? (o.spelling.toList ++ rest) = some (o, rest) := by
  refine read?_eq_some_iff_longest.2 ⟨rfl, fun p hp => ?_⟩
  by_contra hlt
  have hpre : o.spelling.toList <+: p.spelling.toList :=
    List.prefix_of_prefix_length_le (List.prefix_append _ _) hp (by omega)
  obtain ⟨tail, htail⟩ := hpre
  cases tail with
  | nil =>
      rw [List.append_nil] at htail
      exact hlt (Nat.le_of_eq (congrArg List.length htail.symm))
  | cons c tail =>
      rw [← htail, List.prefix_append_right_inj] at hp
      exact h p c tail htail.symm hp

/-- An operator is read if the next character is none by which a longer spelling goes on. -/
theorem read?_append (h : ∀ c ∈ rest.head?, c ∉ o.goesOn) :
    read? (o.spelling.toList ++ rest) = some (o, rest) := by
  refine read?_append_of_not_isPrefix fun p c tail hp hpre => h c ?_ ?_
  · obtain ⟨back, rfl⟩ := hpre
    rfl
  · refine List.mem_filterMap.2 ⟨p, mem_all p, ?_⟩
    rw [if_pos (List.isPrefixOf_iff_prefix.2 (hp ▸ List.prefix_append _ _)), hp]
    simp

end Caret.Operator
