/-
**Is a literal closed, by its bytes?**

Whether a string literal lacks its closing quote can be asked of its bytes: the first and the last
byte are compared, and then the backslashes in front of the last one are counted.  The accesses are in
range, because they come after the question whether there are two bytes at all.  Quotes and
backslashes are single bytes below `0x80`, and the encoding of any other character consists of bytes
above it of which the first is no last one; so the bytes give the answer that the characters give.

Main definitions:

* `Caret.Checked.bytes` — the bytes of a text;
* `Caret.Checked.isUnterminated?` — the question, asked of the bytes.

Main results:

* `Caret.Checked.encode_ascii`, `Caret.Checked.exists_encode` — the bytes of a character;
* `Caret.Checked.isUnterminated?_eq` — **no access fails, and the answer is that of the characters**.
-/

import Mathlib.Data.List.Induction
import Caret.Proofs.Checked.Cutting
import Caret.Proofs.Literal

set_option relaxedAutoImplicit false
set_option autoImplicit false

namespace Caret.Checked

open Quoted (evenBackslashes)

/-- The bytes of a text. -/
def bytes (cs : List Char) : List UInt8 := cs.flatMap String.utf8EncodeChar

/-- The number of backslashes at the end of some bytes. -/
def backslashes (bs : List UInt8) : Nat := (bs.reverse.takeWhile (· == 0x5C)).length

/-- Do the bytes of a literal lack the closing quote?  The first byte has to come again at the end,
and with an even number of backslashes in front unless it is a back quote. -/
def isUnclosed? (bs : List UInt8) : Option Bool := do
  match bs.head? with
  | none => return false
  | some quote =>
    if bs.length < 2 then return true
    else
      let stop ← sub? bs.length 1
      let last ← bs[stop]?
      if last ≠ quote then return true
      else if quote = 0x60 then return false
      else return backslashes (← range? 1 stop bs) % 2 == 1

/-- Is a token a string literal that lacks its closing quote? -/
def isUnterminated? (t : Token) : Option Bool :=
  if t.kind = .string then isUnclosed? (bytes t.text.toList) else some false

/-! ### The bytes of a character -/

/-- An ASCII character is one byte. -/
theorem encode_ascii {c : Char} (h : c.toNat < 0x80) :
    String.utf8EncodeChar c = [UInt8.ofNat c.toNat] := by
  have h' : c.val.toNat ≤ 0x7f := Nat.le_of_lt_succ h
  rw [String.utf8EncodeChar]
  exact if_pos h'

theorem byte_eq_iff {c d : Char} (hc : c.toNat < 0x80) (hd : d.toNat < 0x80) :
    UInt8.ofNat c.toNat = UInt8.ofNat d.toNat ↔ c = d := by
  refine ⟨fun h => ?_, fun h => by rw [h]⟩
  have hnat : c.toNat = d.toNat := by
    have h' := congrArg UInt8.toNat h
    rw [UInt8.toNat_ofNat', UInt8.toNat_ofNat'] at h'
    omega
  exact Char.toNat_inj.1 hnat

theorem byte_bne {c d : Char} (hc : c.toNat < 0x80) (hd : d.toNat < 0x80) :
    (UInt8.ofNat c.toNat != UInt8.ofNat d.toNat) = (c != d) := by
  rw [Bool.eq_iff_iff, bne_iff_ne, bne_iff_ne, ne_eq, byte_eq_iff hc hd]

/-- Any other character has a first and a last byte that differ, and all of its bytes are at least
`0x80`. -/
theorem exists_encode {c : Char} (h : 0x80 ≤ c.toNat) : ∃ first middle last,
    String.utf8EncodeChar c = first :: (middle ++ [last]) ∧ 0xC0 ≤ first.toNat ∧
      0x80 ≤ last.toNat ∧ last.toNat < 0xC0 := by
  have h' : ¬ c.val.toNat ≤ 0x7f := fun h' => absurd (h.trans h') (by decide)
  simp only [String.utf8EncodeChar, if_neg h']
  split
  · refine ⟨_, [], _, rfl, ?_, ?_, ?_⟩
    all_goals simp only [UInt8.toNat_ofNat']; omega
  · split
    · refine ⟨_, [_], _, rfl, ?_, ?_, ?_⟩
      all_goals simp only [UInt8.toNat_ofNat']; omega
    · refine ⟨_, [_, _], _, rfl, ?_, ?_, ?_⟩
      all_goals simp only [UInt8.toNat_ofNat']; omega

theorem bytes_cons (c : Char) (cs : List Char) :
    bytes (c :: cs) = String.utf8EncodeChar c ++ bytes cs := rfl

theorem bytes_nil : bytes [] = [] := rfl

theorem bytes_append (cs ds : List Char) : bytes (cs ++ ds) = bytes cs ++ bytes ds :=
  List.flatMap_append

/-- The last byte of a text starts no character but an ASCII one. -/
theorem exists_last_byte {cs : List Char} (h : cs ≠ []) :
    ∃ front last, bytes cs = front ++ [last] ∧ last.toNat < 0xC0 := by
  obtain ⟨body, c, rfl⟩ := (List.eq_nil_or_concat' cs).resolve_left h
  rw [bytes_append, bytes_cons, bytes_nil, List.append_nil]
  by_cases hc : c.toNat < 0x80
  · refine ⟨bytes body, _, by rw [encode_ascii hc], ?_⟩
    rw [UInt8.toNat_ofNat']
    omega
  · obtain ⟨first, middle, last, hencode, -, -, hlast⟩ := exists_encode (Nat.le_of_not_lt hc)
    exact ⟨bytes body ++ first :: middle, last, by rw [hencode]; simp, hlast⟩

theorem backslashes_append_singleton (bs : List UInt8) (b : UInt8) :
    backslashes (bs ++ [b]) = if b = 0x5C then backslashes bs + 1 else 0 := by
  by_cases hb : b = 0x5C
  · simp [backslashes, hb]
  · simp [backslashes, hb]

/-- Backslashes are counted in the bytes as in the characters. -/
theorem backslashes_bytes (cs : List Char) :
    backslashes (bytes cs) = (cs.reverse.takeWhile (· == '\\')).length := by
  induction cs using List.reverseRecOn with
  | nil => rfl
  | append_singleton cs c ih =>
      rw [bytes_append, bytes_cons, bytes_nil, List.append_nil]
      by_cases hc : c.toNat < 0x80
      · rw [encode_ascii hc, backslashes_append_singleton, ih]
        have hiff : UInt8.ofNat c.toNat = 0x5C ↔ c = '\\' :=
          byte_eq_iff (d := '\\') hc (by decide)
        by_cases hb : c = '\\'
        · rw [if_pos (hiff.2 hb)]
          simp [hb]
        · rw [if_neg (mt hiff.1 hb)]
          simp [hb]
      · obtain ⟨first, middle, last, hencode, -, hlast, -⟩ := exists_encode (Nat.le_of_not_lt hc)
        have hne : last ≠ 0x5C := by
          rintro rfl
          exact absurd hlast (by decide)
        have hb : c ≠ '\\' := by
          rintro rfl
          exact hc (by decide)
        have hbytes : bytes cs ++ (first :: (middle ++ [last]))
            = (bytes cs ++ first :: middle) ++ [last] := by simp
        rw [hencode, hbytes, backslashes_append_singleton, if_neg hne]
        simp [hb]

/-! ### The answer -/

theorem isUnclosed?_singleton (b : UInt8) : isUnclosed? [b] = some true := rfl

/-- From two bytes on the answer depends on the first, the last, and the backslashes in between. -/
theorem isUnclosed?_append (quote last : UInt8) (body : List UInt8) :
    isUnclosed? (quote :: (body ++ [last]))
      = some (last != quote || (quote != 0x60 && backslashes body % 2 == 1)) := by
  have hrange : range? 1 (1 + body.length) ([quote] ++ (body ++ [last])) = some body :=
    range?_append [quote] body [last]
  have hlength : (quote :: (body ++ [last])).length = body.length + 2 := by simp
  have hstop : sub? (quote :: (body ++ [last])).length 1 = some (1 + body.length) := by
    rw [hlength, sub?_of_le (by omega)]
    congr 1
    omega
  have hlast : (quote :: (body ++ [last]))[1 + body.length]? = some last := by
    simp [Nat.add_comm 1]
  rw [isUnclosed?]
  simp only [List.head?_cons, hstop, hlast, Option.bind_eq_bind, Option.bind_some]
  rw [if_neg (by omega)]
  change (if last ≠ quote then some true else if quote = 0x60 then some false
    else (range? 1 (1 + body.length) ([quote] ++ (body ++ [last]))).bind _) = _
  rw [hrange]
  by_cases hq : last = quote
  · by_cases hraw : quote = 0x60
    · simp [hq, hraw]
    · simp [hq, hraw]
  · simp [hq]

/-- A literal whose first character is not ASCII has no closing quote. -/
theorem isUnclosed?_of_not_ascii {quote : Char} (h : 0x80 ≤ quote.toNat) (rest : List Char) :
    isUnclosed? (bytes (quote :: rest)) = some true := by
  obtain ⟨first, middle, last, hencode, hfirst, -, hlast⟩ := exists_encode h
  obtain ⟨body, end_, hbytes, hend⟩ : ∃ body end_, bytes (quote :: rest) = first :: (body ++ [end_]) ∧
      end_.toNat < 0xC0 := by
    by_cases hrest : rest = []
    · exact ⟨middle, last, by rw [hrest, bytes_cons, hencode, bytes_nil, List.append_nil], hlast⟩
    · obtain ⟨front, end_, hbytes, hend⟩ := exists_last_byte hrest
      exact ⟨middle ++ [last] ++ front, end_, by rw [bytes_cons, hencode, hbytes]; simp, hend⟩
  have hne : end_ ≠ first := by
    rintro rfl
    omega
  rw [hbytes, isUnclosed?_append]
  simp [hne]

theorem closesLiteral_of_not_ascii {quote : Char} (h : ¬ quote.toNat < 0x80) (rest : List Char) :
    Token.closesLiteral quote rest = false := by
  rcases List.eq_nil_or_concat' rest with rfl | ⟨body, c, rfl⟩
  · rfl
  · rw [Quoted.closesLiteral_append_singleton, decide_eq_false h, Bool.and_false, Bool.false_and]

/-- Behind an ASCII quote the bytes tell what the characters tell. -/
theorem isUnclosed?_of_ascii {quote : Char} (h : quote.toNat < 0x80) (rest : List Char) :
    isUnclosed? (bytes (quote :: rest)) = some (!Token.closesLiteral quote rest) := by
  rw [bytes_cons, encode_ascii h, List.singleton_append]
  rcases List.eq_nil_or_concat' rest with rfl | ⟨body, c, rfl⟩
  · exact isUnclosed?_singleton _
  · rw [bytes_append, bytes_cons, bytes_nil, List.append_nil, Quoted.closesLiteral_append_singleton]
    by_cases hc : c.toNat < 0x80
    · rw [encode_ascii hc, isUnclosed?_append, backslashes_bytes]
      have hraw : (UInt8.ofNat quote.toNat != 0x60) = (quote != '\x60') :=
        byte_bne (d := '\x60') h (by decide)
      have hodd : ((body.reverse.takeWhile (· == '\\')).length % 2 == 1) = !evenBackslashes body := by
        rw [evenBackslashes]
        rcases Nat.mod_two_eq_zero_or_one (body.reverse.takeWhile (· == '\\')).length with hn | hn
        · rw [hn]
          rfl
        · rw [hn]
          rfl
      rw [byte_bne hc h, hraw, hodd, decide_eq_true h, Bool.and_true, Bool.not_and, Bool.not_or]
      rfl
    · obtain ⟨first, middle, last, hencode, -, hlast, -⟩ := exists_encode (Nat.le_of_not_lt hc)
      have hbytes : bytes body ++ (first :: (middle ++ [last]))
          = (bytes body ++ first :: middle) ++ [last] := by simp
      have hlast_ne : last ≠ UInt8.ofNat quote.toNat := by
        rintro rfl
        rw [UInt8.toNat_ofNat'] at hlast
        omega
      have hne : c ≠ quote := by
        rintro rfl
        exact hc h
      rw [hencode, hbytes, isUnclosed?_append]
      rw [bne_iff_ne.2 hlast_ne, beq_eq_false_iff_ne.2 hne]
      rfl

/-- No access fails, and the answer is that of the characters. -/
theorem isUnterminated?_eq (t : Token) : isUnterminated? t = some t.isUnterminated := by
  rw [isUnterminated?, Token.isUnterminated]
  by_cases hk : t.kind = .string
  · rw [if_pos hk, hk]
    cases t.text.toList with
    | nil => rfl
    | cons quote rest =>
        by_cases h : quote.toNat < 0x80
        · rw [isUnclosed?_of_ascii h]
          rfl
        · rw [isUnclosed?_of_not_ascii (Nat.le_of_not_lt h)]
          simp [closesLiteral_of_not_ascii h]
  · rw [if_neg hk]
    simp [hk]

end Caret.Checked
