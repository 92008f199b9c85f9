/-
**Tables of characters by ranges.**

A property of characters is listed as inclusive ranges of code points.

Main definitions:

* `Caret.Unicode.Ranges`, `Caret.Unicode.Ranges.contains` — a table and its membership test.

Main results:

* `Caret.Unicode.Ranges.contains_iff` — a number is in the table when it is in one of the ranges.
-/

set_option relaxedAutoImplicit false
set_option autoImplicit false

namespace Caret.Unicode

/-- Inclusive ranges of code points. -/
abbrev Ranges := List (Nat × Nat)

/-- Is the code point `n` in one of the ranges? -/
def Ranges.contains (table : Ranges) (n : Nat) : Bool :=
  table.any fun range => decide (range.1 ≤ n) && decide (n ≤ range.2)

theorem Ranges.contains_iff {table : Ranges} {n : Nat} :
    table.contains n = true ↔ ∃ range ∈ table, range.1 ≤ n ∧ n ≤ range.2 := by
  simp [Ranges.contains]

/-! ### The classes below U+0080 -/

theorem toNat_lt_of_isAlpha {c : Char} (h : c.isAlpha = true) : c.toNat < 0x80 := by
  have hle : c.val ≤ 'z'.val := by
    rcases Bool.or_eq_true_iff.1 h with h | h
    · exact UInt32.le_trans (of_decide_eq_true h).2 (by decide)
    · exact of_decide_eq_true (Bool.and_eq_true_iff.1 h).2
  have hle' := UInt32.le_iff_toNat_le.1 hle
  have : c.toNat = c.val.toNat := rfl
  have : 'z'.val.toNat = 122 := rfl
  omega

theorem toNat_lt_of_isDigit {c : Char} (h : c.isDigit = true) : c.toNat < 0x80 := by
  simp only [Char.isDigit, Bool.and_eq_true, decide_eq_true_eq, ge_iff_le,
    UInt32.le_iff_toNat_le] at h
  have : c.toNat = c.val.toNat := rfl
  have : '9'.val.toNat = 57 := rfl
  omega

end Caret.Unicode
