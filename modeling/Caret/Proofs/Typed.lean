/-
**What is typed at the cursor.**

A context comes with the text that is typed at the cursor already.  Which text this is depends on the
last token in front of the cursor alone: the part of a name up to the cursor, the whole of a keyword
that opens a declaration, the part of an import path up to the cursor, and nothing behind any other
token.  The text is cut out of the token at a distance from its start; that this is the text that stands
in the source, whatever stands in front of the token, follows from the place where the token was read.

What a name is typed for does not depend on how much of it is typed: at every place in a name, up to its
end, the kind of the context is the same and so is the expression.

Main definitions:

* `Caret.TypedBehind` — what is typed at an offset behind the start of a lexeme.

Main results:

* `Caret.Context.typed_behind`, `Caret.Context.kind_behind`, `Caret.Context.expression_behind` — what is
  typed goes into a context as it is, and nothing else depends on it;
* `Caret.typed_exact` — **what is typed is what stands in the source**.
-/

import Caret.Proofs.ImportPath
import Caret.Proofs.TextBehind

set_option relaxedAutoImplicit false
set_option autoImplicit false

namespace Caret

/-! ### What goes into a context -/

namespace Context

/-- What is typed goes into the context as it is. -/
@[simp] theorem typed_behind (t : Trail) (word : String) : (behind t word).typed = word := by
  unfold behind
  split <;> rfl

/-- The kind of the context does not depend on what is typed. -/
theorem kind_behind (t : Trail) (word other : String) :
    (behind t word).kind = (behind t other).kind := by
  unfold behind
  split <;> rfl

/-- The expression does not depend on what is typed. -/
theorem expression_behind (t : Trail) (word other : String) :
    (behind t word).expression = (behind t other).expression := by
  unfold behind
  split <;> rfl

section

variable {before after : List Token} {t : Token} {distance : Nat}

/-- In a name the part of it up to the cursor is typed. -/
theorem typed_ofTrail_ident (hk : t.kind = .ident) (hle : distance ≤ utf8Length t.text.toList) :
    (ofTrail ⟨before, t, after⟩ distance).typed
      = String.ofList (takeBytes distance t.text.toList) := by
  rw [ofTrail_ident hk hle]
  cases before with
  | nil => rfl
  | cons landing rest => exact typed_behind _ _

/-- At every distance within a name the context is the same but for what is typed. -/
theorem ofTrail_ident_congr {other : Nat} (hk : t.kind = .ident)
    (hle : distance ≤ utf8Length t.text.toList) (hle' : other ≤ utf8Length t.text.toList) :
    (ofTrail ⟨before, t, after⟩ other).kind = (ofTrail ⟨before, t, after⟩ distance).kind ∧
      (ofTrail ⟨before, t, after⟩ other).expression
        = (ofTrail ⟨before, t, after⟩ distance).expression := by
  rw [ofTrail_ident hk hle, ofTrail_ident hk hle']
  cases before with
  | nil => exact ⟨rfl, rfl⟩
  | cons landing rest => exact ⟨kind_behind _ _ _, expression_behind _ _ _⟩

/-- Behind a name nothing is recognised. -/
theorem ofTrail_ident_of_lt (hk : t.kind = .ident) (hlt : utf8Length t.text.toList < distance) :
    ofTrail ⟨before, t, after⟩ distance = .unknown "" :=
  ofTrail_of_mayEndLine (by rw [hk]; decide) hlt

/-- A keyword that opens a declaration is the name that is typed, so the token before it decides. -/
theorem ofTrail_keyword {k : Keyword} (hk : t.kind = .keyword k) (hmem : k ∈ Keyword.declaring) :
    ofTrail ⟨before, t, after⟩ distance =
      match before with
      | [] => .unknown k.spelling
      | landing :: rest => behind ⟨rest, landing, t :: after⟩ k.spelling := by
  have hne : t.kind ≠ .string := by simp [hk]
  have hword : Typed.ofToken t distance = .word k.spelling := by
    simp only [Typed.ofToken, hk]
    exact if_pos hmem
  rw [ofTrail, Trail.kind, if_neg hne, hword]
  cases before <;> rfl

/-- Of a keyword that opens a declaration all is typed, wherever the cursor is. -/
theorem typed_ofTrail_keyword {k : Keyword} (hk : t.kind = .keyword k) (hmem : k ∈ Keyword.declaring) :
    (ofTrail ⟨before, t, after⟩ distance).typed = k.spelling := by
  rw [ofTrail_keyword hk hmem]
  cases before with
  | nil => rfl
  | cons landing rest => exact typed_behind _ _

/-- Behind a token that is no name and no string nothing is typed, so the token decides itself. -/
theorem ofTrail_of_ne (hstring : t.kind ≠ .string) (hident : t.kind ≠ .ident)
    (hkeyword : ∀ k ∈ Keyword.declaring, t.kind ≠ .keyword k) :
    ofTrail ⟨before, t, after⟩ distance = behind ⟨before, t, after⟩ "" := by
  have hnothing : Typed.ofToken t distance = .nothing := by
    unfold Typed.ofToken
    split
    · next h => exact absurd h hident
    · next k h => exact if_neg fun hmem => hkeyword k hmem h
    · rfl
  rw [ofTrail, Trail.kind, if_neg hstring, hnothing]

/-- Behind a token that is no name nothing is typed, unless it is the path of an import. -/
theorem typed_ofTrail_of_ne (hident : t.kind ≠ .ident)
    (hkeyword : ∀ k ∈ Keyword.declaring, t.kind ≠ .keyword k)
    (himport : (ofTrail ⟨before, t, after⟩ distance).kind ≠ .importPath) :
    (ofTrail ⟨before, t, after⟩ distance).typed = "" := by
  by_cases hk : t.kind = .string
  · rw [ofTrail, Trail.kind, if_pos hk, within] at himport ⊢
    split
    · next h => exact absurd (by rw [if_pos h]; rfl) himport
    · rfl
  · rw [ofTrail_of_ne hk hident hkeyword]
    exact typed_behind _ _

/-- A context is the path of an import if its kind says so. -/
theorem eq_importPath_of_kind {context : Context} (h : context.kind = .importPath) :
    context = .importPath context.typed := by
  cases context with
  | importPath path => rfl
  | _ => exact absurd h (by simp [kind])

end

end Context

/-! ### What is typed -/

/-- What is typed at an offset of a source text, in the context there, where `t` is the last lexeme
that starts in front of the offset. -/
structure TypedBehind (source : String) (offset : Nat) (t : Lexeme) (context : Context) : Prop where
  /-- Of a name the part in front of the offset is typed. -/
  name : t.token.kind = .ident → offset ≤ t.stop.offset →
    context.typed = String.ofList (slice source.toList t.start.offset offset)
  /-- At every other place in the same name, or at its end, the context is the same but for what is
  typed. -/
  name_congr : t.token.kind = .ident → offset ≤ t.stop.offset →
    ∀ other, IsBoundary source.toList other → t.start.offset < other → other ≤ t.stop.offset →
      (classify source other).kind = context.kind ∧
        (classify source other).expression = context.expression
  /-- Behind a name nothing is recognised, and nothing is typed. -/
  name_left : t.token.kind = .ident → t.stop.offset < offset → context = .unknown ""
  /-- A keyword that opens a declaration is typed as a whole. -/
  keyword : ∀ k ∈ Keyword.declaring, t.token.kind = .keyword k →
    context.typed = k.spelling ∧ slice source.toList t.start.offset t.stop.offset = k.spelling.toList
  /-- Of the path of an import the part between its quote and the offset is typed. -/
  importPath : context.kind = .importPath → ∃ quote, (quote = '"' ∨ quote = '\x60') ∧
    slice source.toList t.start.offset (t.start.offset + 1) = [quote] ∧
      context.typed = String.ofList (slice source.toList (t.start.offset + 1) offset)
  /-- In every other case nothing is typed. -/
  other : t.token.kind ≠ .ident →
    (∀ k ∈ Keyword.declaring, t.token.kind ≠ .keyword k) →
      context.kind ≠ .importPath → context.typed = ""

/-- What is typed behind the last lexeme in front of the cursor. -/
theorem typedBehind_of_lastBefore {source : String} {cursor : Nat} {before after : List Lexeme}
    {t : Lexeme} (h : LastBefore (Lexeme.ofText source.toList) (floorBoundary source.toList cursor)
      before t after) :
    TypedBehind source (floorBoundary source.toList cursor) t (classify source cursor) := by
  have hclassify := classify_of_lastBefore rfl h
  have hlt := h.lt
  constructor
  · intro hk hle
    obtain ⟨front, span, rest, htext, hr⟩ := exists_readAt h.mem (by simp [hk])
    have hlength := hr.stop_eq
    rw [hclassify, Context.typed_ofTrail_ident hk (by omega), hr.toList_text,
      hr.takeBytes_eq_slice htext hlt.le hle]
  · intro hk hle other hother hstart hstop
    obtain ⟨front, span, rest, htext, hr⟩ := exists_readAt h.mem (by simp [hk])
    have hlength := hr.stop_eq
    have hlast := h.of_le_stop (ordered_ofText _) hstart hstop
    rw [classify_of_lastBefore (floorBoundary_of_isBoundary hother) hlast, hclassify]
    exact Context.ofTrail_ident_congr hk (by omega) (by omega)
  · intro hk hstop
    obtain ⟨front, span, rest, htext, hr⟩ := exists_readAt h.mem (by simp [hk])
    have hlength := hr.stop_eq
    rw [hclassify]
    exact Context.ofTrail_ident_of_lt hk (by omega)
  · intro k hmem hk
    obtain ⟨front, span, rest, htext, hr⟩ := exists_readAt h.mem (by simp [hk])
    rw [hclassify]
    refine ⟨Context.typed_ofTrail_keyword hk hmem, ?_⟩
    have hslice := slice_append front span rest
    rw [List.append_assoc, ← htext, ← hr.stop, ← hr.start] at hslice
    have hscan := hr.scan
    rw [hk] at hscan
    rw [hslice]
    exact Lexer.spelling_of_read hr.ne_nil hscan rfl
  · intro hkind
    have hpath := hclassify.symm.trans (Context.eq_importPath_of_kind hkind)
    obtain ⟨hk, hin, -, htyped⟩ := Context.ofTrail_eq_importPath_iff.1 hpath
    replace hk : t.token.kind = .string := hk
    obtain ⟨front, span, rest, htext, hr⟩ := exists_readAt h.mem (by simp [hk])
    have hinside := (hr.insideString_iff hk hlt).1 hin
    obtain ⟨quote, hquote, hslice⟩ := hr.exists_quote htext hk
    refine ⟨quote, hquote, hslice, ?_⟩
    rw [htyped, hr.toList_text, hr.drop_takeBytes htext hk hlt (by omega)]
  · intro hident hkeyword himport
    rw [hclassify] at himport ⊢
    exact Context.typed_ofTrail_of_ne hident hkeyword himport

/-- **What is typed is what stands in the source.**  The offset `c` is the cursor, moved back into the
text and to the start of its character.  If no token starts in front of `c`, nothing is typed; and
otherwise the last token that does decides what is. -/
theorem typed_exact (source : String) (cursor : Nat) :
    let text := source.toList
    let c := floorBoundary text cursor
    IsGreatest {b | IsBoundary text b ∧ b ≤ min cursor (utf8Length text)} c ∧
      ((∀ t ∈ Lexeme.ofText text, c ≤ t.start.offset) ∧ (classify source cursor).typed = "" ∨
        ∃ before t after, LastBefore (Lexeme.ofText text) c before t after ∧
          TypedBehind source c t (classify source cursor)) := by
  intro text c
  refine ⟨isGreatest_floorBoundary text cursor, ?_⟩
  rcases exists_lastBefore (ordered_ofText text) c with hnone | ⟨before, t, after, h⟩
  · left
    rw [classify_of_none rfl hnone]
    exact ⟨hnone, rfl⟩
  · exact Or.inr ⟨before, t, after, h, typedBehind_of_lastBefore h⟩

end Caret
