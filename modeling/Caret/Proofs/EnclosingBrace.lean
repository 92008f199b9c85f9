/-
**The brace around a position.**

The walk back to an open brace counts the closing ones it still has to see answered.  Reading
forward from the first token, the same brace is found with a stack: an opening brace is put on it, a
closing one takes the last off, and a closing one that answers nothing is passed over.  The brace
around a position is then on top, and a count of `d` in the walk back asks for the brace that lies
`d` places deeper.  This holds whether or not the braces of the tokens balance.

Main definitions:

* `Caret.openBrackets` — the indices of the brackets that are open behind some tokens, innermost
  first;
* `Caret.enclosingBrace?` — the index of the brace around a position;
* `Caret.typeNameAt?` — the type name that stands in front of an index.

Main results:

* `Caret.enclosure?_eq_openBrackets` — **the count and the stack find the same bracket**;
* `Caret.Trail.typeName_eq_enclosingBrace` — **the type name stands in front of the brace that the
  stack finds**.
-/

import Mathlib.Data.List.Induction
import Caret.Trail.TypeName

set_option relaxedAutoImplicit false
set_option autoImplicit false

namespace Caret

/-! ### Reading forward -/

/-- One token of the pass forward, with its index: an opening bracket goes on the stack and a closing
one takes the last off. -/
def stackBracket (opener closer : Kind) (stack : List Nat) (entry : Token × Nat) : List Nat :=
  if entry.1.kind = opener then entry.2 :: stack
  else if entry.1.kind = closer then stack.tail
  else stack

/-- The indices of the brackets that are open behind the tokens, innermost first. -/
def openBrackets (opener closer : Kind) (tokens : List Token) : List Nat :=
  tokens.zipIdx.foldl (stackBracket opener closer) []

variable {opener closer : Kind}

@[simp] theorem openBrackets_nil : openBrackets opener closer [] = [] := rfl

theorem openBrackets_append_singleton (tokens : List Token) (t : Token) :
    openBrackets opener closer (tokens ++ [t]) =
      stackBracket opener closer (openBrackets opener closer tokens) (t, tokens.length) := by
  simp [openBrackets, List.zipIdx_append]

/-! ### Walking back -/

section

variable {t : Token} {depth : Nat} {before : List Token}

theorem enclosure?_closer (h : t.kind = closer) :
    enclosure? opener closer depth (t :: before) =
      (enclosure? opener closer (depth + 1) before).map (.push t) := by
  cases depth <;> simp [enclosure?, h]

theorem enclosure?_opener_zero (hne : opener ≠ closer) (h : t.kind = opener) :
    enclosure? opener closer 0 (t :: before) = some ⟨[], t, before⟩ := by
  simp [enclosure?, h, hne]

theorem enclosure?_opener_succ (hne : opener ≠ closer) (h : t.kind = opener) :
    enclosure? opener closer (depth + 1) (t :: before) =
      (enclosure? opener closer depth before).map (.push t) := by
  simp [enclosure?, h, hne]

theorem enclosure?_other (hc : t.kind ≠ closer) (ho : t.kind ≠ opener) :
    enclosure? opener closer depth (t :: before) =
      (enclosure? opener closer depth before).map (.push t) := by
  cases depth <;> simp [enclosure?, hc, ho]

end

/-- **The count and the stack find the same bracket.**  Where `depth` closing brackets are still to be
answered, it lies `depth` places below the top. -/
theorem enclosure?_eq_openBrackets (hne : opener ≠ closer) (depth : Nat) (tokens : List Token) :
    (enclosure? opener closer depth tokens.reverse).map (fun e => e.before.length) =
      (openBrackets opener closer tokens)[depth]? := by
  -- the walk back meets the last token first
  induction tokens using List.reverseRecOn generalizing depth with
  | nil => rfl
  | append_singleton tokens t ih =>
      -- a token that is passed stays out of what is left before the bracket
      have hpush : ∀ d, ((enclosure? opener closer d tokens.reverse).map (Enclosure.push t)).map
          (fun e => e.before.length) = (openBrackets opener closer tokens)[d]? := by
        intro d
        rw [← ih d, Option.map_map]
        rfl
      rw [openBrackets_append_singleton, List.reverse_concat, stackBracket]
      by_cases hc : t.kind = closer
      · have ho : t.kind ≠ opener := fun ho => hne (ho.symm.trans hc)
        rw [enclosure?_closer hc, hpush, if_neg ho, if_pos hc, List.getElem?_tail]
      · by_cases ho : t.kind = opener
        · rw [if_pos ho]
          cases depth with
          | zero => simp [enclosure?_opener_zero hne ho]
          | succ depth => rw [enclosure?_opener_succ hne ho, hpush, List.getElem?_cons_succ]
        · rw [enclosure?_other hc ho, hpush, if_neg ho, if_neg hc]

-- the second closing brace answers nothing
example : openBrackets (.op .lbrace) (.op .rbrace) ([.lbrace, .rbrace, .rbrace, .lbrace, .lbrace,
    .rbrace].map fun o => ⟨.op o, o.spelling⟩) = [3] := by
  decide

/-! ### The name in front of a brace -/

/-- The name of the package in front of the index `j`, where it is followed by a period. -/
def packageAt? (tokens : List Token) : Nat → Option String
  | j + 2 =>
    match tokens[j]?, tokens[j + 1]? with
    | some ⟨.ident, package⟩, some ⟨.op .period, _⟩ => some package
    | _, _ => none
  | _ => none

/-- The type name in front of the index `j`: the name right before it, behind the name of a package if
there is one.  Without a name right before `j` there is none. -/
def typeNameAt? (tokens : List Token) : Nat → Option String
  | 0 => none
  | j + 1 =>
    match tokens[j]? with
    | some ⟨.ident, name⟩ =>
      match packageAt? tokens j with
      | some package => some (package ++ "." ++ name)
      | none => some name
    | _ => none

/-- The index of the brace around the position `i`, which is the one at `i` if there is one. -/
def enclosingBrace? (tokens : List Token) (i : Nat) : Option Nat :=
  if tokens[i]?.map (·.kind) = some (.op .lbrace) then some i
  else (openBrackets (.op .lbrace) (.op .rbrace) (tokens.take i)).head?

theorem getElem?_reverse_append (before : List Token) (t : Token) (after : List Token) :
    (before.reverse ++ t :: after)[before.length]? = some t := by
  simp

theorem typeName?_eq_typeNameAt? (before after : List Token) :
    typeName? before = typeNameAt? (before.reverse ++ after) before.length := by
  rcases before with _ | ⟨⟨k, name⟩, before⟩
  · rfl
  · have hlast : ((⟨k, name⟩ :: before).reverse ++ after)[before.length]? = some ⟨k, name⟩ := by
      rw [List.reverse_cons, List.append_assoc]
      exact getElem?_reverse_append before _ after
    rw [List.length_cons, typeNameAt?, hlast]
    cases k with
    | ident =>
      rcases before with _ | ⟨⟨l, point⟩, _ | ⟨⟨m, package⟩, before⟩⟩
      · rfl
      · simp [typeName?, packageAt?]
      · by_cases hl : l = .op .period
        · by_cases hm : m = .ident
          · simp [typeName?, packageAt?, hl, hm]
          · simp [typeName?, packageAt?, hl, hm]
        · simp [typeName?, packageAt?, hl]
    | _ => simp [typeName?]

/-! ### The name in front of the brace around a position -/

namespace Trail

/-- **The type name stands in front of the brace that the stack finds.**  Reading forward up to the
position, every open brace goes on a stack and every closing one takes the last off it, if there is
one; the brace on top is the one around the position, unless the position is on an open brace
itself.  The type name is the one in front of that brace, and there is none without it. -/
theorem typeName_eq_enclosingBrace (t : Trail) :
    t.typeName.1 = (enclosingBrace? t.tokens t.index).bind (typeNameAt? t.tokens) := by
  have hkind : t.tokens[t.index]?.map (·.kind) = some t.kind := by
    rw [getElem?_index]
    rfl
  rw [typeName_fst, enclosingBrace?, hkind, take_index]
  by_cases hk : t.kind = .op .lbrace
  · rw [if_pos hk, if_pos (congrArg some hk)]
    exact typeName?_eq_typeNameAt? t.before (t.current :: t.after)
  · rw [if_neg hk, if_neg fun h => hk (Option.some.inj h), List.head?_eq_getElem?,
      ← enclosure?_eq_openBrackets (by decide), List.reverse_reverse]
    cases he : enclosure? (.op .lbrace) (.op .rbrace) 0 t.before with
    | none => rfl
    | some e =>
      have htokens : t.tokens
          = e.before.reverse ++ (e.opener :: e.inside.reverse ++ t.current :: t.after) := by
        rw [tokens, eq_of_enclosure? he]
        simp
      rw [Option.bind_some, Option.map_some, Option.bind_some, htokens]
      exact typeName?_eq_typeNameAt? e.before _

end Trail

end Caret
