/-
**Operators and delimiters in text.**

The operator at the front of a text is the one with the longest spelling that the text starts with.
Spellings overlap, so they are tried longest first.

Main definitions:

* `Caret.Operator.longestFirst` — the operators in order of falling length;
* `Caret.Operator.read?` — the operator at the front of a text, and the rest.

Main results:

* `Caret.Operator.mem_longestFirst` — no operator is missing;
* `Caret.Operator.eq_append_of_read?` — the spelling and the rest are the text.
-/

import Caret.Token.Kind

set_option relaxedAutoImplicit false
set_option autoImplicit false

namespace Caret.Operator

/-- The operators in order of falling length of their spelling. -/
def longestFirst : List Operator :=
  all.filter (·.spelling.length == 3) ++ all.filter (·.spelling.length == 2)
    ++ all.filter (·.spelling.length == 1)

theorem mem_longestFirst (o : Operator) : o ∈ longestFirst := by
  cases o <;> decide

/-- The operator with the longest spelling that `cs` starts with, and the rest of `cs`. -/
def read? (cs : List Char) : Option (Operator × List Char) :=
  longestFirst.findSome? fun o =>
    if o.spelling.toList.isPrefixOf cs then some (o, cs.drop o.spelling.toList.length) else none

/-- The spelling of the operator and the rest laid end to end are the text. -/
theorem eq_append_of_read? {cs rest : List Char} {o : Operator} (h : read? cs = some (o, rest)) :
    cs = o.spelling.toList ++ rest := by
  obtain ⟨p, -, hp⟩ := List.exists_of_findSome?_eq_some h
  split at hp
  · next hpre =>
      obtain ⟨rfl, rfl⟩ := by simpa using hp
      obtain ⟨tail, rfl⟩ := List.isPrefixOf_iff_prefix.1 hpre
      simp
  · simp at hp

theorem spelling_ne_nil (o : Operator) : o.spelling.toList ≠ [] := by
  cases o <;> decide

end Caret.Operator
