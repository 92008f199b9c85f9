/-
**Where a string literal ends.**

The scanner ends a string at its closing quote, and it looks for it from the left, over the escapes.
Whether a token of a string is terminated is asked later and without the source, from its last character
and the backslashes in front of it.  Both give the same answer, and where it is that the quote is missing,
what stands behind the literal says why: an interpreted string was stopped by a newline or by the end of
the text, and a raw string by the end of the text alone.

Main definitions:

* `Caret.InterpretedEnd`, `Caret.RawEnd` — what is known about the end of a string that opens with a double
  quote, and of one that opens with a back quote.

Main results:

* `Caret.Quoted.newline_not_mem_cutInterpreted` — an interpreted literal does not go over the end of its
  line;
* `Caret.ReadAt.interpretedEnd`, `Caret.ReadAt.rawEnd` — a string that was read at a place ends there as it
  should;
* `Caret.string_end_exact` — **every string literal is terminated exactly if it is closed, and otherwise it
  is as long as it can be**.
-/

import Caret.Proofs.Seen
import Caret.Proofs.Separator

set_option relaxedAutoImplicit false
set_option autoImplicit false

namespace Caret

/-! ### Interpreted literals and newlines -/

namespace Quoted

variable {quote : Char} {body : List Char}

theorem Body.newline_not_mem (h : Body quote body) : '\n' ∉ body := by
  induction h with
  | nil => simp
  | plain _ _ hn _ ih => simp [Ne.symm hn, ih]
  | escape hn _ ih => simp [Ne.symm hn, ih]

/-- What is read behind the opening quote of an interpreted literal holds no newline. -/
theorem newline_not_mem_cutInterpreted (hq : quote ≠ '\n') (cs : List Char) :
    '\n' ∉ (cutInterpreted quote cs).taken := by
  obtain ⟨body, hbody, h | h | h⟩ := exists_body quote cs
  · simp [h, hbody.newline_not_mem, Ne.symm hq]
  · simp [h, hbody.newline_not_mem]
  · simp [h, hbody.newline_not_mem]

end Quoted

/-! ### The two kinds of strings -/

/-- The end of a string literal of the text that opens with a double quote. -/
structure InterpretedEnd (text : List Char) (t : Lexeme) : Prop where
  /-- The literal stands in one line. -/
  one_line : '\n' ∉ t.token.text.toList
  /-- It is terminated exactly if a second quote closes it behind a body. -/
  terminated_iff : t.token.isUnterminated = false ↔
    ∃ body, Quoted.Body '"' body ∧ t.token.text.toList = '"' :: body ++ ['"']
  /-- If it is not, it goes on to the end of its line. -/
  stopped : t.token.isUnterminated = true →
    let behind := slice text t.stop.offset (utf8Length text)
    behind = [] ∨ behind.head? = some '\n'

/-- The end of a string literal of the text that opens with a back quote. -/
structure RawEnd (text : List Char) (t : Lexeme) : Prop where
  /-- The literal is terminated exactly if a second quote closes it, and there is no third. -/
  terminated_iff : t.token.isUnterminated = false ↔
    ∃ body, '\x60' ∉ body ∧ t.token.text.toList = '\x60' :: body ++ ['\x60']
  /-- If it is not, it goes on to the end of the text. -/
  stopped : t.token.isUnterminated = true → t.stop.offset = utf8Length text

section

variable {text front span rest : List Char} {t : Lexeme}

/-- A string that opens with a double quote ends as it should. -/
theorem ReadAt.interpretedEnd {tail : List Char} (h : ReadAt front ('"' :: tail) rest t)
    (htext : text = front ++ ('"' :: tail ++ rest)) (hk : t.token.kind = .string)
    (hcut : Quoted.cut '"' (tail ++ rest) = ⟨tail, rest⟩) : InterpretedEnd text t := by
  rw [Quoted.cut, if_neg (by decide)] at hcut
  have hclosed : Quoted.Closed ('"' :: tail) ↔
      ∃ body, Quoted.Body '"' body ∧ '"' :: tail = '"' :: body ++ ['"'] := by simp [Quoted.Closed]
  refine ⟨?_, ?_, fun hun => ?_⟩
  · have hquote : '"' ≠ '\n' := by decide
    have hline := Quoted.newline_not_mem_cutInterpreted hquote (tail ++ rest)
    rw [hcut] at hline
    simp [h.toList_text, hline]
  · rw [h.toList_text, ← hclosed, ← Bool.not_eq_true, h.isUnterminated_iff hk, not_not]
  · rw [h.slice_stop htext]
    have hstopped := Quoted.body_or_stopped '"' (tail ++ rest)
    rw [hcut] at hstopped
    rcases hstopped with ⟨body, hbody, rfl⟩ | hstopped
    · exact absurd (hclosed.2 ⟨body, hbody, rfl⟩) ((h.isUnterminated_iff hk).1 hun)
    · exact hstopped

/-- So does a string that opens with a back quote. -/
theorem ReadAt.rawEnd {tail : List Char} (h : ReadAt front ('\x60' :: tail) rest t)
    (htext : text = front ++ ('\x60' :: tail ++ rest)) (hk : t.token.kind = .string)
    (hcut : Quoted.cut '\x60' (tail ++ rest) = ⟨tail, rest⟩) : RawEnd text t := by
  rw [Quoted.cut, if_pos rfl] at hcut
  have hclosed : Quoted.Closed ('\x60' :: tail) ↔
      ∃ body, '\x60' ∉ body ∧ '\x60' :: tail = '\x60' :: body ++ ['\x60'] := by simp [Quoted.Closed]
  refine ⟨?_, fun hun => ?_⟩
  · rw [h.toList_text, ← hclosed, ← Bool.not_eq_true, h.isUnterminated_iff hk, not_not]
  · have hend := Quoted.rawBody_or_end (tail ++ rest)
    rw [hcut] at hend
    rcases hend with ⟨body, hbody, rfl⟩ | hend
    · exact absurd (hclosed.2 ⟨body, hbody, rfl⟩) ((h.isUnterminated_iff hk).1 hun)
    · obtain rfl : rest = [] := hend
      rw [h.stop, htext, List.append_nil, utf8Length_append]

end

/-- **Every string literal is terminated exactly if it is closed, and otherwise it is as long as it can
be.**  An interpreted string stands in one line; it is closed by the first quote that no backslash escapes,
or goes on to the end of the line.  A raw string is closed by the next back quote, or goes on to the end of
the text. -/
theorem string_end_exact (source : String) :
    ∀ t ∈ Lexeme.ofText source.toList, t.token.kind = .string →
      t.token.text.toList.head? = some '"' ∧ InterpretedEnd source.toList t ∨
        t.token.text.toList.head? = some '\x60' ∧ RawEnd source.toList t := by
  intro t ht hk
  obtain ⟨front, span, rest, htext, hr⟩ := exists_readAt ht (by simp [hk])
  obtain ⟨quote, tail, hquote, rfl, hcut⟩ := hr.exists_cut hk
  rw [hr.toList_text]
  rcases hquote with rfl | rfl
  · exact Or.inl ⟨rfl, hr.interpretedEnd htext hk hcut⟩
  · exact Or.inr ⟨rfl, hr.rawEnd htext hk hcut⟩

/-- The last quote of a line may be escaped: then the string is not terminated. -/
theorem string_end_exact_escape :
    let text := "\"é\\\"\n".toList
    let t : Lexeme := ⟨⟨.string, "\"é\\\""⟩, ⟨1, 1, 0⟩, ⟨1, 5, 5⟩⟩
    t ∈ Lexeme.ofText text ∧ t.token.kind = .string ∧ t.token.isUnterminated = true ∧
      InterpretedEnd text t := by
  intro text t
  have hmem : t ∈ Lexeme.ofText text := by
    have hfirst : Lexeme.ofText text = t :: Lexer.lexemes ⟨['\n'], ⟨1, 5, 5⟩, true⟩ :=
      Lexer.lexemes_of_step (Lexer.step_of_next (by decide))
    rw [hfirst]
    exact List.mem_cons_self
  refine ⟨hmem, rfl, by decide, ?_⟩
  rcases string_end_exact "\"é\\\"\n" t hmem rfl with ⟨-, hend⟩ | ⟨hhead, -⟩
  · exact hend
  · exact absurd hhead (by decide)

end Caret
