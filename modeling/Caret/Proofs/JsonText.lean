/-
**What a JSON text says.**

A JSON text consists of marks: braces, colons and commas, numbers, strings and the word `null`.  White
space may stand around any of them and says nothing, and a character of a string may be spelled in
several ways.  So a value has many texts; which ones these are is said here as the format defines it, and
not by way of the layout that is used for writing.  The layout then turns out to be one of them.

Only the values of `Caret.Json` are dealt with: there are no arrays, no truth values, and no numbers with
a sign, a fraction or an exponent.

Main definitions:

* `Caret.Json.Mark`, `Caret.Json.marks` — the marks, and those of a value;
* `Caret.Json.Spelling`, `Caret.Json.Spells` — the ways to spell a character and a string;
* `Caret.Json.Written`, `Caret.Json.Marked` — the ways to write a mark and a row of marks;
* `Caret.Json.Denotes` — a text says a value.

Main results:

* `Caret.Json.spelling_escape` — a character that is escaped is spelled;
* `Caret.Json.isNumeral_toDigits` — a number is written without a leading zero;
* `Caret.Json.denotes_render` — **the text that a value is written as says this value**.
-/

import Caret.Json
import Caret.Toml.Text

set_option relaxedAutoImplicit false
set_option autoImplicit false

namespace Caret.Json

/-! ### Marks -/

/-- The marks of a JSON text. -/
inductive Mark where
  | opening
  | closing
  | colon
  | comma
  | null
  | number (n : Nat)
  | string (s : String)
  deriving DecidableEq, Repr

mutual

/-- The marks of a value. -/
def marks : Json → List Mark
  | null => [.null]
  | number n => [.number n]
  | string s => [.string s]
  | object fields => .opening :: fieldMarks fields ++ [.closing]

/-- The marks of fields, with commas between them. -/
def fieldMarks : List (String × Json) → List Mark
  | [] => []
  | [(key, v)] => .string key :: .colon :: v.marks
  | (key, v) :: field :: fields =>
    .string key :: .colon :: v.marks ++ .comma :: fieldMarks (field :: fields)

end

/-! ### Spelling -/

/-- The escapes that are a backslash and one more character, with the characters they stand for. -/
def shortEscapes : List (Char × Char) :=
  [('"', '"'), ('\\', '\\'), ('/', '/'), ('b', '\x08'), ('f', '\x0c'), ('n', '\n'), ('r', '\r'),
    ('t', '\t')]

/-- The number that four hexadecimal digits stand for. -/
def hexFour? : List Char → Option Nat
  | [a, b, c, d] => do
    let high := 16 * (← Toml.hexValue? a) + (← Toml.hexValue? b)
    let low := 16 * (← Toml.hexValue? c) + (← Toml.hexValue? d)
    return 256 * high + low
  | _ => none

/-- The first half of a pair that stands for one character. -/
def isHigh (n : Nat) : Bool := decide (0xD800 ≤ n ∧ n < 0xDC00)

/-- The second half of such a pair. -/
def isLow (n : Nat) : Bool := decide (0xDC00 ≤ n ∧ n < 0xE000)

/-- The character of a pair. -/
def ofPair (high low : Nat) : Char := Char.ofNat (0x10000 + 0x400 * (high - 0xD800) + (low - 0xDC00))

/-- The ways to spell a character between quotes: as itself, with a short escape, by its code point in
four hexadecimal digits, or by a pair of those. -/
inductive Spelling : Char → List Char → Prop
  | plain {c : Char} : isPlain c = true → Spelling c [c]
  | short {mark c : Char} : (mark, c) ∈ shortEscapes → Spelling c ['\\', mark]
  | code {digits : List Char} {n : Nat} : hexFour? digits = some n → n.isValidChar →
      Spelling (Char.ofNat n) ('\\' :: 'u' :: digits)
  | pair {digits digits' : List Char} {high low : Nat} : hexFour? digits = some high →
      hexFour? digits' = some low → isHigh high = true → isLow low = true →
      Spelling (ofPair high low) ('\\' :: 'u' :: digits ++ '\\' :: 'u' :: digits')

/-- The ways to spell some characters, one after the other. -/
inductive Spells : List Char → List Char → Prop
  | nil : Spells [] []
  | cons {c : Char} {cs front text : List Char} : Spelling c front → Spells cs text →
      Spells (c :: cs) (front ++ text)

/-! ### Texts -/

/-- Decimal digits without a leading zero. -/
structure IsNumeral (digits : List Char) : Prop where
  ne_nil : digits ≠ []
  isDigit : ∀ d ∈ digits, d.isDigit = true
  head_ne : digits ≠ ['0'] → digits.head? ≠ some '0'

/-- The ways to write a mark. -/
inductive Written : Mark → List Char → Prop
  | opening : Written .opening ['\x7b']
  | closing : Written .closing ['\x7d']
  | colon : Written .colon [':']
  | comma : Written .comma [',']
  | null : Written .null ['n', 'u', 'l', 'l']
  | number {digits : List Char} : IsNumeral digits →
      Written (.number (Nat.ofDigitChars 10 digits 0)) digits
  | string {cs text : List Char} : Spells cs text →
      Written (.string (String.ofList cs)) ('"' :: text ++ ['"'])

/-- The characters that say nothing between marks. -/
def isSpace (c : Char) : Bool := c ∈ [' ', '\t', '\n', '\r']

/-- No digit stands at the beginning of a text. -/
def NoDigit (cs : List Char) : Prop := ∀ c ∈ cs.head?, c.isDigit = false

/-- The ways to write a row of marks, with any white space around them.  The digits of a number go on for
as long as there are any. -/
inductive Marked : List Mark → List Char → Prop
  | nil {space : List Char} : (∀ c ∈ space, isSpace c = true) → Marked [] space
  | cons {space text rest : List Char} {m : Mark} {ms : List Mark} :
      (∀ c ∈ space, isSpace c = true) → Written m text → ((∃ n, m = .number n) → NoDigit rest) →
      Marked ms rest → Marked (m :: ms) (space ++ text ++ rest)

/-- A text says a value. -/
def Denotes (text : String) (j : Json) : Prop := Marked j.marks text.toList

/-! ### Escaped strings -/

theorem hexValue?_hexDigit {n : Nat} (h : n < 16) : Toml.hexValue? (hexDigit n) = some n := by
  revert n
  decide

/-- A character that is escaped is spelled. -/
theorem spelling_escape (c : Char) : Spelling c (escape c) := by
  unfold escape
  -- seven characters have an escape of their own
  iterate 7
    split
    · next h =>
        subst h
        exact .short (by decide)
  split
  · next hcontrol =>
      -- a control character is less than 32, so two of the four digits are zero
      have hcode : hexFour? ['0', '0', hexDigit (c.toNat / 16), hexDigit (c.toNat % 16)]
          = some c.toNat := by
        have hzero : Toml.hexValue? '0' = some 0 := by decide
        have hdiv := Nat.div_add_mod c.toNat 16
        simp [hexFour?, hzero, hexValue?_hexDigit (show c.toNat / 16 < 16 by omega),
          hexValue?_hexDigit (show c.toNat % 16 < 16 by omega), hdiv]
      have hspelling := Spelling.code hcode c.valid
      rwa [Char.ofNat_toNat] at hspelling
  · next hquote hbackslash _ _ _ _ _ hcontrol =>
      exact .plain (by simp [isPlain, hquote, hbackslash, Nat.not_lt.1 hcontrol])

theorem spells_flatMap_escape (cs : List Char) : Spells cs (cs.flatMap escape) := by
  induction cs with
  | nil => exact .nil
  | cons c cs ih => exact .cons (spelling_escape c) ih

theorem written_quote (s : String) : Written (.string s) (quote s).toList := by
  have h := Written.string (spells_flatMap_escape s.toList)
  simpa [quote] using h

/-! ### Numbers -/

/-- A number that is not zero starts with another digit. -/
theorem head_toDigits_ne {n : Nat} (h : n ≠ 0) : (Nat.toDigits 10 n).head? ≠ some '0' := by
  induction n using Nat.strongRecOn with
  | ind n ih =>
      rcases Nat.lt_or_ge n 10 with hlt | hge
      · have hdigit : ∀ m < 10, m ≠ 0 → Nat.digitChar m ≠ '0' := by decide
        rw [Nat.toDigits_of_lt_base hlt]
        simpa using hdigit n hlt h
      · have hfront := ih (n / 10) (by omega) (by omega)
        obtain ⟨d, ds, hds⟩ := List.exists_cons_of_ne_nil (@Nat.toDigits_ne_nil (n / 10) 10)
        rw [hds] at hfront
        rw [Nat.toDigits_of_base_le (by decide) hge, hds]
        exact hfront

/-- A number is written without a leading zero. -/
theorem isNumeral_toDigits (n : Nat) : IsNumeral (Nat.toDigits 10 n) := by
  refine ⟨Nat.toDigits_ne_nil, fun d hd => Nat.isDigit_of_mem_toDigits (by decide) (by decide) hd,
    fun hzero => head_toDigits_ne fun h => hzero ?_⟩
  rw [h, Nat.toDigits_zero]

theorem written_repr (n : Nat) : Written (.number n) (Nat.repr n).toList := by
  have h := Written.number (isNumeral_toDigits n)
  rw [Nat.ofDigitChars_ten_toDigits] at h
  simpa [Nat.repr_eq_ofList_toDigits] using h

/-! ### The layout -/

section

variable {ms : List Mark} {rest : List Char}

theorem noDigit_cons {c : Char} {cs : List Char} : NoDigit (c :: cs) ↔ c.isDigit = false := by
  simp [NoDigit]

/-- More white space in front says nothing. -/
theorem Marked.space_append (space : List Char) (hspace : ∀ c ∈ space, isSpace c = true)
    (h : Marked ms rest) : Marked ms (space ++ rest) := by
  have hboth : ∀ {front : List Char}, (∀ c ∈ front, isSpace c = true) →
      ∀ c ∈ space ++ front, isSpace c = true := fun hfront c hc =>
    (List.mem_append.1 hc).elim (hspace c) (hfront c)
  cases h with
  | nil hfront => exact .nil (hboth hfront)
  | cons hfront hm hdigit h =>
      rw [← List.append_assoc, ← List.append_assoc]
      exact .cons (hboth hfront) hm hdigit h

/-- A mark in front. -/
theorem Marked.mark {m : Mark} {text : List Char} (hm : Written m text) (hdigit : NoDigit rest)
    (h : Marked ms rest) : Marked (m :: ms) (text ++ rest) :=
  .cons (List.forall_mem_nil _) hm (fun _ => hdigit) h

/-- What is no number may be followed by anything. -/
theorem Marked.sign {m : Mark} {text : List Char} (hm : Written m text) (hnumber : ∀ n, m ≠ .number n)
    (h : Marked ms rest) : Marked (m :: ms) (text ++ rest) :=
  .cons (List.forall_mem_nil _) hm (fun ⟨n, hn⟩ => absurd hn (hnumber n)) h

theorem isSpace_indent (level : Nat) : ∀ c ∈ (indent level).toList, isSpace c = true := by
  intro c hc
  rw [indent, String.toList_ofList] at hc
  rw [List.eq_of_mem_replicate hc]
  decide

/-- A field: white space, its name, a colon, white space, and its value. -/
theorem marked_field {level : Nat} (key : String) {v : Json}
    (h : Marked (v.marks ++ ms) ((renderAt level v).toList ++ rest)) :
    Marked (.string key :: .colon :: v.marks ++ ms)
      ((indent level ++ quote key ++ ": " ++ renderAt level v).toList ++ rest) := by
  have hvalue := h.space_append [' '] (by simp [isSpace])
  have hname := (hvalue.sign .colon (by simp)).sign (written_quote key) (by simp)
  simpa using hname.space_append _ (isSpace_indent level)

end

mutual

/-- What is written for a value are its marks, whatever stands behind. -/
theorem marked_renderAt (level : Nat) (j : Json) {ms : List Mark} {rest : List Char}
    (hdigit : NoDigit rest) (h : Marked ms rest) :
    Marked (j.marks ++ ms) ((renderAt level j).toList ++ rest) := by
  match j with
  | null => simpa [marks, renderAt] using Marked.sign .null (by simp) h
  | number n => simpa [marks, renderAt] using Marked.mark (written_repr n) hdigit h
  | string s => simpa [marks, renderAt] using Marked.sign (written_quote s) (by simp) h
  | object [] =>
      have hclosing := Marked.sign .closing (by simp) h
      simpa [marks, fieldMarks, renderAt] using Marked.sign .opening (by simp) hclosing
  | object (field :: fields) =>
      have hclosing := (Marked.sign .closing (by simp) h).space_append _ (isSpace_indent level)
      have hend := hclosing.space_append ['\n'] (by simp [isSpace])
      have hfields := marked_renderFields (level + 1) (field :: fields) (by simp)
        (noDigit_cons.2 (by decide)) hend
      have hstart := hfields.space_append ['\n'] (by simp [isSpace])
      simpa [marks, renderAt] using Marked.sign .opening (by simp) hstart

/-- So are those of fields. -/
theorem marked_renderFields (level : Nat) (fields : List (String × Json)) (hne : fields ≠ [])
    {ms : List Mark} {rest : List Char} (hdigit : NoDigit rest) (h : Marked ms rest) :
    Marked (fieldMarks fields ++ ms) ((renderFields level fields).toList ++ rest) := by
  match fields with
  | [(key, v)] =>
      have hvalue := marked_renderAt level v hdigit h
      simpa [fieldMarks, renderFields] using marked_field key hvalue
  | (key, v) :: field :: fields =>
      have hfields := marked_renderFields level (field :: fields) (by simp) hdigit h
      have hnext := Marked.sign .comma (by simp) (hfields.space_append ['\n'] (by simp [isSpace]))
      have hvalue := marked_renderAt level v (noDigit_cons.2 (by decide)) hnext
      simpa [fieldMarks, renderFields] using marked_field key hvalue

end

/-- **The text that a value is written as says this value.** -/
theorem denotes_render (j : Json) : Denotes j.render j := by
  have hnothing : Marked [] [] := .nil (List.forall_mem_nil _)
  have h := marked_renderAt 0 j (by simp [NoDigit]) hnothing
  simpa [Denotes, render] using h

end Caret.Json
