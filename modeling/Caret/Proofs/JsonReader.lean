/-
**Reading a JSON text.**

A text is read in two passes.  The first cuts it into marks, and spelling and white space are gone then.
The second walks over the marks and keeps the objects that are open around it, each with the fields read
so far and the name of the field that is being read.

The reader is measured against what the format says, and not against the layout that is used for
writing: it reads every text of a value, however it is spelled and laid out, and finds this value.  So
no text says two values.

Main definitions:

* `Caret.Json.char?`, `Caret.Json.string?`, `Caret.Json.number?`, `Caret.Json.next?` — reading a
  character of a string, a string, a number, and a mark;
* `Caret.Json.marks?` — the marks of a text;
* `Caret.Json.Frame`, `Caret.Json.value?`, `Caret.Json.behind?` — the walk over the marks;
* `Caret.Json.read?` — the value of a text.

Main results:

* `Caret.Json.marks?_of_marked` — however marks are written, they are found;
* `Caret.Json.value?_marks` — the walk takes in a value as a whole;
* `Caret.Json.read?_of_denotes` — **every text of a value is read**;
* `Caret.Json.Denotes.unique` — **no text says two values**.
-/

import Caret.Proofs.Step
import Caret.Proofs.JsonText

set_option relaxedAutoImplicit false
set_option autoImplicit false

namespace Caret.Json

/-! ### Characters and strings -/

/-- The character whose code point stands at the front of a text, and the rest.  Half a pair needs its
other half. -/
def code? (cs : List Char) : Option (Char × List Char) := do
  let n ← hexFour? (cs.take 4)
  if isHigh n then
    match cs.drop 4 with
    | '\\' :: 'u' :: cs =>
      let low ← hexFour? (cs.take 4)
      if isLow low then return (ofPair n low, cs.drop 4) else none
    | _ => none
  else if n.isValidChar then return (Char.ofNat n, cs.drop 4)
  else none

/-- The character spelled at the front of a text, and the rest. -/
def char? : List Char → Option (Char × List Char)
  | '\\' :: 'u' :: cs => code? cs
  | '\\' :: mark :: cs => (shortEscapes.lookup mark).map fun c => (c, cs)
  | c :: cs => if isPlain c then some (c, cs) else none
  | [] => none

theorem length_code? {cs rest : List Char} {c : Char} (h : code? cs = some (c, rest)) :
    rest.length ≤ cs.length := by
  simp only [code?, Option.bind_eq_bind, Option.bind_eq_some_iff] at h
  obtain ⟨n, -, h⟩ := h
  have hdrop : (cs.drop 4).length ≤ cs.length := by simp
  split at h
  · split at h
    · next tail heq =>
        obtain ⟨low, -, h⟩ := Option.bind_eq_some_iff.1 h
        split at h
        · obtain rfl := (Prod.mk.inj (Option.some.inj h)).2
          rw [heq, List.length_cons, List.length_cons] at hdrop
          rw [List.length_drop]
          omega
        · simp at h
    · simp at h
  · split at h
    · obtain rfl := (Prod.mk.inj (Option.some.inj h)).2
      exact hdrop
    · simp at h

theorem length_char? {cs rest : List Char} {c : Char} (h : char? cs = some (c, rest)) :
    rest.length < cs.length := by
  unfold char? at h
  split at h
  · have := length_code? h
    simp only [List.length_cons]
    omega
  · obtain ⟨d, -, hd⟩ := Option.map_eq_some_iff.1 h
    obtain rfl := (Prod.mk.inj hd).2
    simp only [List.length_cons]
    omega
  · split at h
    · obtain rfl := (Prod.mk.inj (Option.some.inj h)).2
      simp
    · simp at h
  · simp at h

/-- The characters up to the closing quote, and the rest behind it. -/
def string? (cs : List Char) : Option (List Char × List Char) :=
  if cs.head? = some '"' then some ([], cs.tail)
  else
    match _h : char? cs with
    | none => none
    | some (c, rest) => (string? rest).map fun (s, behind) => (c :: s, behind)
termination_by cs.length
decreasing_by exact length_char? _h

instance {digits : List Char} : Decidable (IsNumeral digits) :=
  decidable_of_iff (digits ≠ [] ∧ digits.all Char.isDigit = true ∧
      (digits ≠ ['0'] → digits.head? ≠ some '0'))
    ⟨fun h => ⟨h.1, List.all_eq_true.1 h.2.1, h.2.2⟩,
      fun h => ⟨h.ne_nil, List.all_eq_true.2 h.isDigit, h.head_ne⟩⟩

/-- The number whose digits stand at the front of a text, and the rest. -/
def number? (cs : List Char) : Option (Nat × List Char) :=
  let digits := Cut.run Char.isDigit cs
  if IsNumeral digits.taken then some (Nat.ofDigitChars 10 digits.taken 0, digits.rest) else none

/-- The mark at the front of a text, and the rest. -/
def next? : List Char → Option (Mark × List Char)
  | '\x7b' :: cs => some (.opening, cs)
  | '\x7d' :: cs => some (.closing, cs)
  | ':' :: cs => some (.colon, cs)
  | ',' :: cs => some (.comma, cs)
  | 'n' :: 'u' :: 'l' :: 'l' :: cs => some (.null, cs)
  | '"' :: cs => (string? cs).map fun (s, rest) => (.string (String.ofList s), rest)
  | cs => (number? cs).map fun (n, rest) => (.number n, rest)

theorem length_string? {cs rest s : List Char} (h : string? cs = some (s, rest)) :
    rest.length ≤ cs.length := by
  fun_induction string? cs generalizing s with
  | case1 cs =>
      obtain rfl := (Prod.mk.inj (Option.some.inj h)).2
      simp
  | case2 => simp at h
  | case3 cs _ c front hc ih =>
      obtain ⟨⟨s, behind⟩, hs, hpair⟩ := Option.map_eq_some_iff.1 h
      obtain rfl := (Prod.mk.inj hpair).2
      exact Nat.le_trans (ih hs) (Nat.le_of_lt (length_char? hc))

theorem length_number? {cs rest : List Char} {n : Nat} (h : number? cs = some (n, rest)) :
    rest.length < cs.length := by
  unfold number? at h
  simp only at h
  split at h
  · next hnumeral =>
      obtain rfl := (Prod.mk.inj (Option.some.inj h)).2
      have hlt := Cut.length_rest_lt hnumeral.ne_nil
      rwa [Cut.whole_run] at hlt
  · simp at h

theorem length_next? {cs rest : List Char} {m : Mark} (h : next? cs = some (m, rest)) :
    rest.length < cs.length := by
  unfold next? at h
  split at h
  -- a sign, or the word
  iterate 5
    · obtain rfl := (Prod.mk.inj (Option.some.inj h)).2
      simp only [List.length_cons]
      omega
  · obtain ⟨⟨s, behind⟩, hs, hpair⟩ := Option.map_eq_some_iff.1 h
    obtain rfl := (Prod.mk.inj hpair).2
    exact Nat.lt_succ_of_le (length_string? hs)
  · obtain ⟨⟨n, behind⟩, hn, hpair⟩ := Option.map_eq_some_iff.1 h
    obtain rfl := (Prod.mk.inj hpair).2
    exact length_number? hn

/-- The marks of a text. -/
def marks? (cs : List Char) : Option (List Mark) :=
  match _hspace : cs.dropWhile isSpace with
  | [] => some []
  | c :: front =>
    match _h : next? (c :: front) with
    | none => none
    | some (m, rest) => (marks? rest).map (m :: ·)
termination_by cs.length
decreasing_by
  have hlt := length_next? _h
  have hle := (List.dropWhile_suffix isSpace (l := cs)).length_le
  rw [_hspace] at hle
  omega

/-! ### Values -/

/-- An object that is open: the fields read so far, and the name of the field being read. -/
structure Frame where
  fields : List (String × Json)
  key : String

mutual

/-- The value of a text whose next mark starts a value; the open objects stand innermost first. -/
def value? (frames : List Frame) : List Mark → Option Json
  | .null :: ms => behind? frames .null ms
  | .number n :: ms => behind? frames (.number n) ms
  | .string s :: ms => behind? frames (.string s) ms
  | .opening :: .closing :: ms => behind? frames (.object []) ms
  | .opening :: .string key :: .colon :: ms => value? (⟨[], key⟩ :: frames) ms
  | _ => none

/-- The value of a text in which the value `v` is read already.  It belongs to the innermost open
object. -/
def behind? (frames : List Frame) (v : Json) : List Mark → Option Json
  | [] => if frames.isEmpty then some v else none
  | .comma :: .string key :: .colon :: ms =>
    match frames with
    | ⟨fields, last⟩ :: frames => value? (⟨fields ++ [(last, v)], key⟩ :: frames) ms
    | [] => none
  | .closing :: ms =>
    match frames with
    | ⟨fields, last⟩ :: frames => behind? frames (.object (fields ++ [(last, v)])) ms
    | [] => none
  | _ => none

end

/-- The value of a text. -/
def read? (text : String) : Option Json := (marks? text.toList).bind (value? [])

/-! ### Reading what is spelled -/

section

variable {digits digits' text rest : List Char}

theorem length_of_hexFour? {n : Nat} (h : hexFour? digits = some n) : digits.length = 4 := by
  unfold hexFour? at h
  split at h
  · rfl
  · simp at h

/-- Half a pair is no character. -/
theorem isHigh_of_isValidChar {n : Nat} (h : n.isValidChar) : isHigh n = false := by
  simp only [Nat.isValidChar] at h
  simp only [isHigh, decide_eq_false_iff_not]
  omega

theorem code?_of_code {n : Nat} (hn : hexFour? digits = some n) (hvalid : n.isValidChar) :
    code? (digits ++ rest) = some (Char.ofNat n, rest) := by
  have hlength := length_of_hexFour? hn
  simp [code?, List.take_left' hlength, List.drop_left' hlength, hn, hvalid, isHigh_of_isValidChar hvalid]

theorem code?_of_pair {high low : Nat} (hhigh : hexFour? digits = some high)
    (hlow : hexFour? digits' = some low) (hisHigh : isHigh high = true) (hisLow : isLow low = true) :
    code? (digits ++ '\\' :: 'u' :: (digits' ++ rest)) = some (ofPair high low, rest) := by
  have hlength := length_of_hexFour? hhigh
  have hlength' := length_of_hexFour? hlow
  simp [code?, List.take_left' hlength, List.drop_left' hlength, hhigh, hisHigh,
    List.take_left' hlength', List.drop_left' hlength', hlow, hisLow]

theorem lookup_shortEscapes : ∀ e ∈ shortEscapes, e.1 ≠ 'u' ∧ shortEscapes.lookup e.1 = some e.2 := by
  decide

/-- However a character is spelled, it is read. -/
theorem char?_of_spelling {c : Char} (h : Spelling c text) :
    char? (text ++ rest) = some (c, rest) := by
  cases h with
  | plain hplain =>
      have hne : c ≠ '\\' := by
        rintro rfl
        exact absurd hplain (by decide)
      simp [char?, hne, hplain]
  | @short mark _ hmem =>
      obtain ⟨hne, hlookup⟩ := lookup_shortEscapes _ hmem
      rw [List.cons_append, List.singleton_append, char?, hlookup, Option.map_some]
      exact hne
  | code hn hvalid => exact code?_of_code hn hvalid
  | pair hhigh hlow hisHigh hisLow =>
      have hpair := @code?_of_pair _ _ rest _ _ hhigh hlow hisHigh hisLow
      simpa [char?] using hpair

/-- No spelling starts with a quote. -/
theorem Spelling.head?_ne {c : Char} (h : Spelling c text) : (text ++ rest).head? ≠ some '"' := by
  cases h with
  | plain hplain =>
      have hne : c ≠ '"' := by
        rintro rfl
        exact absurd hplain (by decide)
      simpa using hne
  | short | code | pair => simp

/-- However a string is spelled, it is read up to its closing quote. -/
theorem string?_of_spells {cs : List Char} (h : Spells cs text) :
    string? (text ++ '"' :: rest) = some (cs, rest) := by
  induction h with
  | nil => simp [string?]
  | cons hc _ ih =>
      rw [List.append_assoc, string?, if_neg hc.head?_ne]
      split
      · next hnone => simp [char?_of_spelling hc] at hnone
      · next c' front hsome =>
          rw [char?_of_spelling hc] at hsome
          obtain ⟨rfl, rfl⟩ := Prod.mk.inj (Option.some.inj hsome)
          rw [ih]
          rfl

/-- The digits of a number are read as far as they go. -/
theorem number?_of_isNumeral (h : IsNumeral digits) (hrest : NoDigit rest) :
    number? (digits ++ rest) = some (Nat.ofDigitChars 10 digits 0, rest) := by
  have hrun : Cut.run Char.isDigit (digits ++ rest) = ⟨digits, rest⟩ :=
    Cut.run_append h.isDigit hrest
  rw [number?, hrun]
  exact if_pos h

/-- A number starts with a digit. -/
theorem IsNumeral.exists_cons (h : IsNumeral digits) : ∃ d ds, digits = d :: ds ∧ d.isDigit = true := by
  obtain ⟨d, ds, rfl⟩ := List.exists_cons_of_ne_nil h.ne_nil
  exact ⟨d, ds, rfl, h.isDigit d (by simp)⟩

/-- What starts with a digit is a number. -/
theorem next?_of_isDigit {d : Char} (h : d.isDigit = true) (cs : List Char) :
    next? (d :: cs) = (number? (d :: cs)).map fun (n, rest) => (.number n, rest) := by
  have hne : ∀ c : Char, c.isDigit = false → d ≠ c := by
    rintro c hc rfl
    exact absurd h (by simp [hc])
  rw [next?]
  all_goals
    intro ds
    simp [hne]

/-- However a mark is written, it is read. -/
theorem next?_of_written {m : Mark} (h : Written m text) (hrest : (∃ n, m = .number n) → NoDigit rest) :
    next? (text ++ rest) = some (m, rest) := by
  cases h with
  | opening | closing | colon | comma | null => rfl
  | string hs =>
      simp [next?, string?_of_spells hs]
  | number hn =>
      have hnumber := number?_of_isNumeral hn (hrest ⟨_, rfl⟩)
      obtain ⟨d, ds, rfl, hd⟩ := hn.exists_cons
      rw [List.cons_append] at hnumber ⊢
      rw [next?_of_isDigit hd, hnumber]
      rfl

theorem isDigit_of_isSpace {c : Char} (h : isSpace c = true) : c.isDigit = false := by
  simp only [isSpace, List.mem_cons, List.not_mem_nil, or_false, decide_eq_true_eq] at h
  rcases h with rfl | rfl | rfl | rfl <;> decide

/-- No mark starts with white space. -/
theorem Written.exists_cons {m : Mark} (h : Written m text) :
    ∃ c cs, text = c :: cs ∧ isSpace c = false := by
  cases h with
  | opening | closing | colon | comma | null => exact ⟨_, _, rfl, by decide⟩
  | string => exact ⟨_, _, rfl, by decide⟩
  | number hn =>
      obtain ⟨d, ds, rfl, hd⟩ := hn.exists_cons
      refine ⟨d, ds, rfl, Bool.eq_false_iff.2 fun hspace => ?_⟩
      simp [isDigit_of_isSpace hspace] at hd

theorem marks?_of_space (h : ∀ c ∈ text, isSpace c = true) : marks? text = some [] := by
  have hnil : text.dropWhile isSpace = [] := List.dropWhile_eq_nil_iff.2 h
  rw [marks?]
  split
  · rfl
  · next heq => simp [hnil] at heq

/-- The first mark, and those of the rest. -/
theorem marks?_of_next {c : Char} {front : List Char} {m : Mark}
    (hspace : text.dropWhile isSpace = c :: front) (h : next? (c :: front) = some (m, rest)) :
    marks? text = (marks? rest).map (m :: ·) := by
  rw [marks?]
  split
  · next heq => simp [hspace] at heq
  · next d front' heq =>
      obtain ⟨rfl, rfl⟩ := List.cons.inj (hspace.symm.trans heq)
      split
      · next hnone => simp [h] at hnone
      · next m' rest' hsome =>
          obtain ⟨rfl, rfl⟩ := Prod.mk.inj (Option.some.inj (h.symm.trans hsome))
          rfl

/-- However marks are written, they are found. -/
theorem marks?_of_marked {ms : List Mark} (h : Marked ms text) : marks? text = some ms := by
  induction h with
  | nil hspace => exact marks?_of_space hspace
  | @cons space front rest m ms hspace hm hdigit _ ih =>
      obtain ⟨c, cs, rfl, hc⟩ := hm.exists_cons
      have hdrop : (space ++ (c :: cs) ++ rest).dropWhile isSpace = c :: (cs ++ rest) := by
        rw [List.append_assoc, List.dropWhile_append_of_pos hspace, List.cons_append,
          List.dropWhile_cons_of_neg (by simp [hc])]
      rw [marks?_of_next hdrop (next?_of_written hm hdigit), ih]
      rfl

end

/-! ### The walk over the marks -/

/-- The marks behind a field: a comma and further fields, if there are any. -/
def furtherMarks (fields : List (String × Json)) : List Mark :=
  if fields.isEmpty then [] else .comma :: fieldMarks fields

theorem fieldMarks_cons (key : String) (v : Json) (fields : List (String × Json)) :
    fieldMarks ((key, v) :: fields) = .string key :: .colon :: (v.marks ++ furtherMarks fields) := by
  cases fields <;> simp [fieldMarks, furtherMarks]

mutual

/-- The walk takes in a value as a whole, whatever objects are open around it. -/
theorem value?_marks (frames : List Frame) (j : Json) (ms : List Mark) :
    value? frames (j.marks ++ ms) = behind? frames j ms := by
  match j with
  | null => simp [marks, value?]
  | number n => simp [marks, value?]
  | string s => simp [marks, value?]
  | object [] => simp [marks, fieldMarks, value?]
  | object ((key, v) :: fields) =>
      have hfields := value?_furtherMarks frames [] key v fields ms
      simpa [marks, fieldMarks_cons, value?] using hfields
termination_by sizeOf j

/-- So it takes in the fields that are left of an object, up to its closing brace. -/
theorem value?_furtherMarks (frames : List Frame) (done : List (String × Json)) (key : String)
    (v : Json) (fields : List (String × Json)) (ms : List Mark) :
    value? (⟨done, key⟩ :: frames) (v.marks ++ (furtherMarks fields ++ .closing :: ms))
      = behind? frames (.object (done ++ (key, v) :: fields)) ms := by
  rw [value?_marks (⟨done, key⟩ :: frames) v]
  match fields with
  | [] => simp [furtherMarks, behind?]
  | (key', v') :: fields =>
      have hfields := value?_furtherMarks frames (done ++ [(key, v)]) key' v' fields ms
      rw [furtherMarks]
      simpa [fieldMarks_cons, behind?] using hfields
termination_by sizeOf v + sizeOf fields + 1

end

/-! ### Texts of values -/

/-- **Every text of a value is read.** -/
theorem read?_of_denotes {text : String} {j : Json} (h : Denotes text j) : read? text = some j := by
  have hvalue := value?_marks [] j []
  rw [List.append_nil] at hvalue
  rw [read?, marks?_of_marked h, Option.bind_some, hvalue]
  simp [behind?]

/-- **No text says two values.** -/
theorem Denotes.unique {text : String} {j j' : Json} (h : Denotes text j) (h' : Denotes text j') :
    j = j' :=
  Option.some.inj ((read?_of_denotes h).symm.trans (read?_of_denotes h'))

end Caret.Json
