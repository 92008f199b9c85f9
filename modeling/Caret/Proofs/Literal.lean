/-
**Closed and unclosed literals.**

An interpreted literal is closed by the first quote that no backslash stands in front of, where a
backslash also takes a backslash behind it.  The lexer reads it that way, from left to right.
Whether a literal that has been read is closed is asked later, of its text alone, and answered from
the right: the number of backslashes in front of a final quote has to be even.  This module says what
a closed string literal is without either reader, and shows that both agree with it.

Main definitions:

* `Caret.Quoted.Body` — what may stand between the quotes of an interpreted literal;
* `Caret.Quoted.Closed` — a string literal with its closing quote;
* `Caret.Quoted.evenBackslashes` — is the number of backslashes at the end of a text even?

Main results:

* `Caret.Quoted.evenBackslashes_of_body`, `Caret.Quoted.not_evenBackslashes_of_body` — the count from
  the right tells an escaped quote from a closing one;
* `Caret.Lexeme.scan_of_closed` — a closed literal is read whole, whatever follows it;
* `Caret.Lexeme.isUnterminated_iff` — **a string literal that was read is unterminated exactly if it
  is not closed**.
-/

import Mathlib.Data.List.Basic
import Caret.Proofs.Scan

set_option relaxedAutoImplicit false
set_option autoImplicit false

namespace Caret

namespace Quoted

/-! ### What stands between quotes -/

/-- What may stand between the quotes of an interpreted literal: no newline, and neither a quote nor
a backslash unless a backslash escapes it. -/
inductive Body (quote : Char) : List Char → Prop
  | nil : Body quote []
  | plain {c : Char} {cs : List Char} : c ≠ quote → c ≠ '\\' → c ≠ '\n' → Body quote cs →
      Body quote (c :: cs)
  | escape {c : Char} {cs : List Char} : c ≠ '\n' → Body quote cs → Body quote ('\\' :: c :: cs)

/-- A string literal with its closing quote. -/
def Closed (text : List Char) : Prop :=
  (∃ body, Body '"' body ∧ text = '"' :: body ++ ['"']) ∨
    ∃ body, '\x60' ∉ body ∧ text = '\x60' :: body ++ ['\x60']

/-! ### Reading from the left -/

variable {quote c : Char} {cs body rest : List Char}

theorem cutInterpreted_newline (quote : Char) (cs : List Char) :
    cutInterpreted quote ('\n' :: cs) = .nothing ('\n' :: cs) := by
  cases cs <;> simp [cutInterpreted]

theorem cutInterpreted_quote (hq : quote ≠ '\n') :
    cutInterpreted quote (quote :: cs) = ⟨[quote], cs⟩ := by
  cases cs <;> simp [cutInterpreted, hq]

theorem cutInterpreted_plain (hq : c ≠ quote) (hb : c ≠ '\\') (hn : c ≠ '\n') :
    cutInterpreted quote (c :: cs) = (cutInterpreted quote cs).keep [c] := by
  cases cs with
  | nil => simp [cutInterpreted, hn, Cut.keep, Cut.nothing]
  | cons d cs => simp [cutInterpreted, hq, hb, hn]

theorem cutInterpreted_escape (hq : quote ≠ '\\') (hn : c ≠ '\n') :
    cutInterpreted quote ('\\' :: c :: cs) = (cutInterpreted quote cs).keep ['\\', c] := by
  simp [cutInterpreted, hq.symm, hn]

/-- The first quote that is not escaped closes. -/
theorem cutInterpreted_close (hq : quote ≠ '\\') (hn : quote ≠ '\n') (h : Body quote body) :
    cutInterpreted quote (body ++ quote :: rest) = ⟨body ++ [quote], rest⟩ := by
  induction h with
  | nil => exact cutInterpreted_quote hn
  | plain hcq hcb hcn _ ih =>
      rw [List.cons_append, cutInterpreted_plain hcq hcb hcn, ih]
      rfl
  | escape hcn _ ih =>
      rw [List.cons_append, List.cons_append, cutInterpreted_escape hq hcn, ih]
      rfl

/-- A back quote closes a raw string. -/
theorem cutRaw_close (h : '\x60' ∉ body) :
    cutRaw (body ++ '\x60' :: rest) = ⟨body ++ ['\x60'], rest⟩ := by
  induction body with
  | nil => simp [cutRaw]
  | cons c body ih =>
      obtain ⟨hc, hb⟩ := not_or.1 fun h' => h (List.mem_cons.2 h')
      rw [List.cons_append, cutRaw, if_neg (Ne.symm hc), ih hb]
      rfl

/-- What is read behind the opening quote is a body with the closing quote, or else a body that may
have a last backslash without a character for it. -/
theorem exists_body (quote : Char) (cs : List Char) :
    ∃ body, Body quote body ∧ ((cutInterpreted quote cs).taken = body ++ [quote] ∨
      (cutInterpreted quote cs).taken = body ∨
      (cutInterpreted quote cs).taken = body ++ ['\\']) := by
  fun_induction cutInterpreted quote cs with
  | case1 => exact ⟨[], Body.nil, Or.inr (Or.inl rfl)⟩
  | case2 => exact ⟨[], Body.nil, Or.inr (Or.inl rfl)⟩
  | case3 c hcn =>
      by_cases hcb : c = '\\'
      · exact ⟨[], Body.nil, Or.inr (Or.inr (by rw [hcb]; rfl))⟩
      · by_cases hcq : c = quote
        · exact ⟨[], Body.nil, Or.inl (by rw [hcq]; rfl)⟩
        · exact ⟨[c], Body.plain hcq hcb hcn Body.nil, Or.inr (Or.inl rfl)⟩
  | case4 => exact ⟨[], Body.nil, Or.inr (Or.inl rfl)⟩
  | case5 => exact ⟨[], Body.nil, Or.inl rfl⟩
  | case6 c d cs _ _ hesc ih =>
      obtain ⟨rfl, hd⟩ := hesc
      obtain ⟨body, hbody, h⟩ := ih
      exact ⟨'\\' :: d :: body, Body.escape hd hbody, by simpa using h⟩
  | case7 c d cs hcn hcq hesc ih =>
      by_cases hcb : c = '\\'
      · -- a newline follows the backslash, and the literal ends there
        obtain rfl : d = '\n' := Classical.not_not.1 fun hd => hesc ⟨hcb, hd⟩
        refine ⟨[], Body.nil, Or.inr (Or.inr ?_)⟩
        rw [cutInterpreted_newline, hcb]
        rfl
      · obtain ⟨body, hbody, h⟩ := ih
        exact ⟨c :: body, Body.plain hcq hcb hcn hbody, by simpa using h⟩

/-- What is read behind the opening back quote has no further back quote but a closing one. -/
theorem exists_rawBody (cs : List Char) :
    ∃ body, '\x60' ∉ body ∧ ((cutRaw cs).taken = body ++ ['\x60'] ∨ (cutRaw cs).taken = body) := by
  induction cs with
  | nil => exact ⟨[], by simp, Or.inr rfl⟩
  | cons c cs ih =>
      by_cases hc : c = '\x60'
      · exact ⟨[], by simp, Or.inl (by simp [cutRaw, hc])⟩
      · obtain ⟨body, hbody, h⟩ := ih
        refine ⟨c :: body, by simp [hbody, Ne.symm hc], ?_⟩
        rw [cutRaw, if_neg hc]
        simpa using h

/-! ### Counting from the right -/

/-- Is the number of backslashes at the end of a text even? -/
def evenBackslashes (cs : List Char) : Bool :=
  (cs.reverse.takeWhile (· == '\\')).length % 2 == 0

@[simp] theorem evenBackslashes_nil : evenBackslashes [] = true := rfl

theorem evenBackslashes_append_singleton (cs : List Char) (c : Char) :
    evenBackslashes (cs ++ [c]) = (c != '\\' || !evenBackslashes cs) := by
  by_cases hc : c = '\\'
  · subst hc
    have hparity : ∀ n : Nat, ((n + 1) % 2 == 0) = !(n % 2 == 0) := by
      intro n
      rcases Nat.mod_two_eq_zero_or_one n with hn | hn
      · simp [Nat.add_mod, hn]
      · simp [Nat.add_mod, hn]
    simp [evenBackslashes, hparity]
  · simp [evenBackslashes, hc]

/-- Behind a body no backslash waits for the character that it escapes. -/
theorem evenBackslashes_append (h : Body quote body) {front : List Char}
    (hf : evenBackslashes front = true) : evenBackslashes (front ++ body) = true := by
  induction h generalizing front with
  | nil => rwa [List.append_nil]
  | @plain c cs _ hcb _ _ ih =>
      have hc : evenBackslashes (front ++ [c]) = true := by
        simp [evenBackslashes_append_singleton, hcb]
      simpa using ih hc
  | @escape c cs _ _ ih =>
      have hc : evenBackslashes (front ++ ['\\'] ++ [c]) = true := by
        rw [evenBackslashes_append_singleton, evenBackslashes_append_singleton, hf]
        simp
      simpa using ih hc

theorem evenBackslashes_of_body (h : Body quote body) : evenBackslashes body = true := by
  simpa using evenBackslashes_append h evenBackslashes_nil

/-- In front of a quote at the end of a body a backslash waits for it. -/
theorem not_evenBackslashes_append (h : Body quote body) {front back : List Char}
    (hf : evenBackslashes front = true) (hb : body = back ++ [quote]) :
    evenBackslashes (front ++ back) = false := by
  induction h generalizing front back with
  | nil => simp at hb
  | @plain c cs hcq hcb _ _ ih =>
      have hc : evenBackslashes (front ++ [c]) = true := by
        simp [evenBackslashes_append_singleton, hcb]
      cases back with
      | nil => exact absurd (List.cons.inj hb).1 hcq
      | cons d back =>
          obtain ⟨rfl, rfl⟩ := List.cons.inj hb
          simpa using ih hc rfl
  | @escape c cs _ _ ih =>
      have hodd : evenBackslashes (front ++ ['\\']) = false := by
        simp [evenBackslashes_append_singleton, hf]
      have hc : evenBackslashes (front ++ ['\\'] ++ [c]) = true := by
        rw [evenBackslashes_append_singleton, hodd]
        simp
      rcases back with _ | ⟨d, _ | ⟨e, back⟩⟩
      · simp at hb
      · -- the final quote is the character that is escaped
        obtain ⟨rfl, -⟩ := List.cons.inj hb
        exact hodd
      · simp only [List.cons_append, List.cons.injEq] at hb
        obtain ⟨rfl, rfl, rfl⟩ := hb
        simpa using ih hc rfl

theorem not_evenBackslashes_of_body (h : Body quote (body ++ [quote])) :
    evenBackslashes body = false := by
  simpa using not_evenBackslashes_append h evenBackslashes_nil rfl

/-! ### Both agree -/

theorem closesLiteral_append_singleton (quote last : Char) (body : List Char) :
    Token.closesLiteral quote (body ++ [last]) =
      (last == quote && decide (quote.toNat < 0x80) &&
        (quote == '\x60' || evenBackslashes body)) := by
  simp [Token.closesLiteral, evenBackslashes]

/-- Only an interpreted literal asks how many backslashes stand in front of its last quote. -/
theorem closesLiteral_iff {quote : Char} (hquote : quote.toNat < 0x80) {rest : List Char} :
    Token.closesLiteral quote rest = true ↔
      ∃ body, rest = body ++ [quote] ∧ (quote = '\x60' ∨ evenBackslashes body = true) := by
  constructor
  · intro h
    rcases List.eq_nil_or_concat' rest with rfl | ⟨body, last, rfl⟩
    · simp [Token.closesLiteral] at h
    · rw [closesLiteral_append_singleton] at h
      obtain ⟨⟨rfl, -⟩, h⟩ : (last = quote ∧ quote.toNat < 0x80) ∧
          (quote = '\x60' ∨ evenBackslashes body = true) := by simpa using h
      exact ⟨body, rfl, h⟩
  · rintro ⟨body, rfl, h⟩
    rw [closesLiteral_append_singleton]
    simpa [hquote] using h

theorem closesLiteral_quote_iff {rest : List Char} :
    Token.closesLiteral '"' rest = true ↔
      ∃ body, rest = body ++ ['"'] ∧ evenBackslashes body = true := by
  rw [closesLiteral_iff (by decide)]
  simp

theorem closesLiteral_backQuote_iff {rest : List Char} :
    Token.closesLiteral '\x60' rest = true ↔ ∃ body, rest = body ++ ['\x60'] := by
  rw [closesLiteral_iff (by decide)]
  simp

/-- Behind an opening quote, the count from the right finds what the reader from the left found. -/
theorem closesLiteral_cutInterpreted (cs : List Char) :
    Token.closesLiteral '"' (cutInterpreted '"' cs).taken = true ↔
      ∃ body, Body '"' body ∧ (cutInterpreted '"' cs).taken = body ++ ['"'] := by
  rw [closesLiteral_quote_iff]
  constructor
  · rintro ⟨front, hfront, heven⟩
    obtain ⟨body, hbody, h | h | h⟩ := exists_body '"' cs
    · exact ⟨body, hbody, h⟩
    · -- a final quote that belongs to the body is escaped
      rw [hfront] at h
      rw [not_evenBackslashes_of_body (h ▸ hbody)] at heven
      exact absurd heven (by decide)
    · rw [hfront] at h
      exact absurd (List.append_inj_right' h rfl) (by decide)
  · rintro ⟨body, hbody, h⟩
    exact ⟨body, h, evenBackslashes_of_body hbody⟩

theorem closesLiteral_cutRaw (cs : List Char) :
    Token.closesLiteral '\x60' (cutRaw cs).taken = true ↔
      ∃ body, '\x60' ∉ body ∧ (cutRaw cs).taken = body ++ ['\x60'] := by
  rw [closesLiteral_backQuote_iff]
  constructor
  · rintro ⟨front, hfront⟩
    obtain ⟨body, hbody, h | h⟩ := exists_rawBody cs
    · exact ⟨body, hbody, h⟩
    · rw [hfront] at h
      exact absurd (h ▸ by simp) hbody
  · rintro ⟨body, -, h⟩
    exact ⟨body, h⟩

end Quoted

namespace Lexeme

open Quoted

/-- A closed literal is read whole, whatever follows it. -/
theorem scan_of_closed {text : List Char} (h : Closed text) (rest : List Char) :
    scan (text ++ rest) = (.string, ⟨text, rest⟩) := by
  rcases h with ⟨body, hbody, rfl⟩ | ⟨body, hbody, rfl⟩
  · rw [List.append_assoc, List.cons_append, scan_quote _ (Or.inl rfl), List.singleton_append,
      Quoted.cut, if_neg (by decide), cutInterpreted_close (by decide) (by decide) hbody]
    rfl
  · rw [List.append_assoc, List.cons_append, scan_quote _ (Or.inr (Or.inr rfl)),
      List.singleton_append, Quoted.cut, if_pos rfl, cutRaw_close hbody]
    rfl

/-- **A string literal that was read is unterminated exactly if it is not closed.** -/
theorem isUnterminated_iff {c : Char} {cs : List Char} {text : Cut}
    (h : scan (c :: cs) = (.string, text)) :
    (Token.mk .string (String.ofList text.taken)).isUnterminated = true ↔ ¬ Closed text.taken := by
  have hq := isQuote_of_scan h (Or.inl rfl)
  rw [scan_quote _ hq] at h
  obtain ⟨hk, rfl⟩ := Prod.mk.inj h
  have hun : (Token.mk .string (String.ofList ((Quoted.cut c cs).keep [c]).taken)).isUnterminated
      = !Token.closesLiteral c (Quoted.cut c cs).taken := by
    simp [Token.isUnterminated]
  rw [hun, Bool.not_eq_true', ← Bool.not_eq_true]
  refine not_congr ?_
  rcases hq with rfl | rfl | rfl
  · rw [Quoted.cut, if_neg (by decide), closesLiteral_cutInterpreted]
    simp [Closed]
  · exact absurd hk (by decide)
  · rw [Quoted.cut, if_pos rfl, closesLiteral_cutRaw]
    simp [Closed]

end Lexeme

end Caret
