/-
**Characters and their bytes.**

Offsets count the bytes of a text's UTF-8 encoding, and a text is a list of characters.  An offset
that falls inside a character is rounded, down to where the character starts or up to where it
ends; both roundings are given here as the part of the text that lies before the rounded offset.

Main definitions:

* `Caret.utf8Length` — the length of a text in bytes;
* `Caret.takeBytes` — the characters that lie wholly within the first bytes of a text;
* `Caret.coverBytes` — the fewest characters that reach a number of bytes;
* `Caret.floorBoundary` — an offset clamped to the text and rounded down to a boundary.

Main results:

* `Caret.utf8Length_append` — lengths add up;
* `Caret.utf8Length_takeBytes_le`, `Caret.takeBytes_append_left` — the rounded-down part is no
  longer than asked for, and all of a part that fits is taken;
* `Caret.takeBytes_prefix`, `Caret.coverBytes_prefix` — both parts are initial.
-/

set_option relaxedAutoImplicit false
set_option autoImplicit false

namespace Caret

/-! ### Length in bytes -/

/-- The number of bytes of a text. -/
def utf8Length : List Char → Nat
  | [] => 0
  | c :: cs => c.utf8Size + utf8Length cs

@[simp] theorem utf8Length_nil : utf8Length [] = 0 := rfl

@[simp] theorem utf8Length_cons (c : Char) (cs : List Char) :
    utf8Length (c :: cs) = c.utf8Size + utf8Length cs := rfl

@[simp] theorem utf8Length_append (cs ds : List Char) :
    utf8Length (cs ++ ds) = utf8Length cs + utf8Length ds := by
  induction cs with
  | nil => simp
  | cons c cs ih => simp [ih, Nat.add_assoc]

theorem utf8Length_eq_zero_iff {cs : List Char} : utf8Length cs = 0 ↔ cs = [] := by
  cases cs with
  | nil => simp
  | cons c cs =>
      have := c.utf8Size_pos
      simp only [utf8Length_cons, reduceCtorEq, iff_false]
      omega

/-- A text has at least one byte for each character. -/
theorem length_le_utf8Length (cs : List Char) : cs.length ≤ utf8Length cs := by
  induction cs with
  | nil => simp
  | cons c cs ih =>
      have := c.utf8Size_pos
      simp only [List.length_cons, utf8Length_cons]
      omega

/-! ### Cutting at an offset -/

/-- The characters of a text that end within its first `n` bytes. -/
def takeBytes (n : Nat) : List Char → List Char
  | [] => []
  | c :: cs => if c.utf8Size ≤ n then c :: takeBytes (n - c.utf8Size) cs else []

/-- The characters of a text that start within its first `n` bytes. -/
def coverBytes (n : Nat) : List Char → List Char
  | [] => []
  | c :: cs => if n = 0 then [] else c :: coverBytes (n - c.utf8Size) cs

/-- The largest boundary between characters that is at most `n` and within the text. -/
def floorBoundary (cs : List Char) (n : Nat) : Nat := utf8Length (takeBytes n cs)

@[simp] theorem takeBytes_nil (n : Nat) : takeBytes n [] = [] := rfl

@[simp] theorem coverBytes_nil (n : Nat) : coverBytes n [] = [] := rfl

theorem takeBytes_prefix (n : Nat) (cs : List Char) : takeBytes n cs <+: cs := by
  induction cs generalizing n with
  | nil => simp
  | cons c cs ih =>
      rw [takeBytes]
      split
      · simpa using ih _
      · simp

theorem coverBytes_prefix (n : Nat) (cs : List Char) : coverBytes n cs <+: cs := by
  induction cs generalizing n with
  | nil => simp
  | cons c cs ih =>
      rw [coverBytes]
      split
      · simp
      · simpa using ih _

theorem utf8Length_takeBytes_le (n : Nat) (cs : List Char) : utf8Length (takeBytes n cs) ≤ n := by
  induction cs generalizing n with
  | nil => simp
  | cons c cs ih =>
      rw [takeBytes]
      split
      · have := ih (n - c.utf8Size)
        simp only [utf8Length_cons]
        omega
      · simp

/-- A part that fits is taken whole, and the rest is cut at what remains. -/
theorem takeBytes_append_left {n : Nat} {cs : List Char} (ds : List Char)
    (h : utf8Length cs ≤ n) :
    takeBytes n (cs ++ ds) = cs ++ takeBytes (n - utf8Length cs) ds := by
  induction cs generalizing n with
  | nil => simp
  | cons c cs ih =>
      simp only [utf8Length_cons] at h
      rw [List.cons_append, takeBytes, if_pos (by omega), ih (by omega), List.cons_append,
        utf8Length_cons, Nat.sub_sub]

@[simp] theorem takeBytes_zero (cs : List Char) : takeBytes 0 cs = [] := by
  cases cs with
  | nil => rfl
  | cons c cs =>
      have := c.utf8Size_pos
      rw [takeBytes, if_neg (by omega)]

@[simp] theorem coverBytes_zero (cs : List Char) : coverBytes 0 cs = [] := by
  cases cs <;> simp [coverBytes]

end Caret
