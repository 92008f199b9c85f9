/-
**Text behind the cursor.**

What is written behind the cursor does not change what the cursor stands in: the text in front of it
gives the same context.  The two readings of the text may differ in the last token before the cursor,
which the shorter text cuts off, or in a mark of the end of the line; in both cases the classifier
gives the same answer, which is shown here.  It only has to be excluded that the cursor splits a
token that is no literal or identifier, or the mark that opens a comment: `im` and `import`, or `/`
and `//`, are not the same.

Main results:

* `Caret.Context.behind_congr` — the tokens passed on the way back do not matter;
* `Caret.Context.ofTrail_of_isCut` — a literal or an identifier that is cut off at the cursor gives the
  same context;
* `Caret.Context.ofTrail_of_mayEndLine`, `Caret.Context.ofTrail_lineEnd` — behind a token that ends a
  line nothing is recognised, with the end of the line marked or not;
* `Caret.classify_takeBytes` — **text behind the cursor does not matter**.
-/

import Caret.Proofs.Truncate

set_option relaxedAutoImplicit false
set_option autoImplicit false

namespace Caret

/-! ### What the way back depends on -/

namespace Context

/-- The tokens behind the position do not matter. -/
theorem behind_congr {s t : Trail} (hb : s.before = t.before) (hc : s.current = t.current)
    (typed : String) : behind s typed = behind t typed := by
  have hk : s.kind = t.kind := congrArg Token.kind hc
  have he : s.expression.1 = t.expression.1 := by
    rw [Trail.expression_fst, Trail.expression_fst, hb, hk]
  have hn : s.typeName.1 = t.typeName.1 := by
    rw [Trail.typeName_fst, Trail.typeName_fst, hb, hk]
  simp only [behind, hk, he, hn]

/-- Behind a token that may end a line nothing is recognised. -/
theorem behind_of_mayEndLine {t : Trail} (h : MayEndLine t.kind) (typed : String) :
    behind t typed = .unknown typed := by
  unfold behind
  split
  · next hk => rw [hk] at h; exact absurd h (by decide)
  · next hk => rw [hk] at h; exact absurd h (by decide)
  · next hk => rw [hk] at h; exact absurd h (by decide)
  · rfl

/-! ### Behind a token that ends a line -/

/-- The keywords that are taken for names end no line. -/
theorem not_mayEndLine_of_mem {k : Keyword} (h : k ∈ Keyword.declaring) :
    ¬ MayEndLine (.keyword k) := by
  revert h
  cases k <;> decide

/-- A token that may end a line contributes nothing to a name behind it. -/
theorem ofToken_ne_word {t : Token} {distance : Nat} (h : MayEndLine t.kind)
    (hlen : utf8Length t.text.toList < distance) (text : String) :
    Typed.ofToken t distance ≠ .word text := by
  unfold Typed.ofToken
  split
  · simp [hlen]
  · next k hk =>
      rw [if_neg fun hmem => not_mayEndLine_of_mem hmem (hk ▸ h)]
      simp
  · simp

/-- A cursor behind a token that may end a line stands in nothing that is recognised. -/
theorem ofTrail_of_mayEndLine {before after : List Token} {t : Token} {distance : Nat}
    (h : MayEndLine t.kind) (hlen : utf8Length t.text.toList < distance) :
    ofTrail ⟨before, t, after⟩ distance = .unknown "" := by
  by_cases hk : t.kind = .string
  · have hin : insideString t distance = false := by
      have hlt : ¬ distance < utf8Length t.text.toList := by omega
      have hne : distance ≠ utf8Length t.text.toList := by omega
      simp [insideString, hlt, hne]
    rw [ofTrail, Trail.kind, if_pos hk, within, hin, Bool.false_and]
    rfl
  · rw [ofTrail, Trail.kind, if_neg hk]
    cases hw : Typed.ofToken t distance with
    | leftBehind => rfl
    | nothing => exact behind_of_mayEndLine (t := ⟨before, t, after⟩) h ""
    | word text => exact absurd hw (ofToken_ne_word h hlen text)

/-- Behind the mark of the end of a line nothing is recognised. -/
theorem ofTrail_lineEnd (before after : List Token) (distance : Nat) :
    ofTrail ⟨before, .lineEnd, after⟩ distance = .unknown "" := rfl

/-! ### A token that is cut off -/

/-- A string that goes on behind the cursor is not closed in front of it. -/
theorem not_closed_of_goesOn {front span back rest : List Char} {t : Lexeme}
    (h : ReadAt front (span ++ back) rest t) (hb : back ≠ []) : ¬ Quoted.Closed span := by
  intro hc
  have hscan := h.scan
  rw [List.append_assoc, Lexeme.scan_of_closed hc] at hscan
  have hspan : span = span ++ back := congrArg Cut.taken (Prod.mk.inj hscan).2
  exact hb (List.append_right_eq_self.1 hspan.symm)

section

variable {before after : List Token} {t : Token} {distance : Nat}

theorem ofTrail_string (hk : t.kind = .string) (hin : insideString t distance = true) :
    ofTrail ⟨before, t, after⟩ distance = if opensImport true (before.map (·.kind)) then
      .importPath (String.ofList ((takeBytes distance t.text.toList).drop 1))
      else .unknown "" := by
  rw [ofTrail, Trail.kind, if_pos hk, within, hin, Bool.true_and]

theorem ofTrail_char (hk : t.kind = .char) :
    ofTrail ⟨before, t, after⟩ distance = .unknown "" := by
  have hne : t.kind ≠ .string := by simp [hk]
  have hmay : MayEndLine t.kind := by
    rw [hk]
    decide
  have hnothing : Typed.ofToken t distance = .nothing := by simp [Typed.ofToken, hk]
  rw [ofTrail, Trail.kind, if_neg hne, hnothing]
  exact behind_of_mayEndLine (t := ⟨before, t, after⟩) hmay ""

theorem ofTrail_ident (hk : t.kind = .ident) (hle : distance ≤ utf8Length t.text.toList) :
    ofTrail ⟨before, t, after⟩ distance =
      let word := String.ofList (takeBytes distance t.text.toList)
      match before with
      | [] => .unknown word
      | landing :: rest => behind ⟨rest, landing, t :: after⟩ word := by
  have hne : t.kind ≠ .string := by simp [hk]
  have hword : Typed.ofToken t distance = .word (String.ofList (takeBytes distance t.text.toList)) :=
    by simp [Typed.ofToken, hk, Nat.not_lt.2 hle]
  rw [ofTrail, Trail.kind, if_neg hne, hword]
  cases before <;> rfl

end

/-- A literal or an identifier that is cut off at the cursor gives the same context. -/
theorem ofTrail_of_isCut {cursor : Nat} {t u : Lexeme} (h : IsCut cursor t u)
    (before : List Token) :
    ofTrail ⟨before, t.token, []⟩ (cursor - t.start.offset) =
      ofTrail ⟨before, u.token, []⟩ (cursor - u.start.offset) := by
  obtain ⟨hstart, hlt, hstop, hstop'⟩ := h.offsets
  obtain ⟨htyped, htyped'⟩ := h.takeBytes_eq
  obtain ⟨hkind, hliteral, front, span, back, rest, ht, hu, hback, -⟩ := h
  rcases hliteral with hk | hk | hk
  · -- the cursor is inside of the string, and at the end of its part, which has no closing quote
    have hk' := hkind.trans hk
    have hin : insideString t.token (cursor - t.start.offset) = true :=
      (ht.insideString_iff hk hlt).2 (Or.inl hstop)
    have hin' : insideString u.token (cursor - u.start.offset) = true :=
      (hu.insideString_iff hk' (by omega)).2 (Or.inr ⟨hstop', not_closed_of_goesOn ht hback⟩)
    rw [ofTrail_string hk hin, ofTrail_string hk' hin', htyped, htyped']
  · rw [ofTrail_char hk, ofTrail_char (hkind.trans hk)]
  · have hlen := ht.stop_eq
    have hlen' := hu.stop_eq
    rw [ofTrail_ident hk (by omega), ofTrail_ident (hkind.trans hk) (by omega)]
    simp only [htyped, htyped']
    cases before with
    | nil => rfl
    | cons landing rest =>
        exact behind_congr (s := ⟨rest, landing, [t.token]⟩) (t := ⟨rest, landing, [u.token]⟩) rfl rfl
          (String.ofList u.token.text.toList)

end Context

/-! ### The whole text and the text in front of the cursor -/

/-- What stands in front of the cursor in two readings that are alike gives the same context. -/
theorem classify_of_alike {source front : String} {cursor : Nat}
    (hc : floorBoundary source.toList cursor = cursor)
    (hc' : floorBoundary front.toList cursor = cursor)
    (h : Alike cursor (Lexeme.ofText source.toList) (Lexeme.ofText front.toList)) :
    classify source cursor = classify front cursor := by
  cases h with
  | none ht hu => rw [classify_of_none hc ht, classify_of_none hc' hu]
  | same ht hu => rw [classify_of_lastBefore hc ht, classify_of_lastBefore hc' hu]
  | cut ht hu hcut =>
      rw [classify_of_lastBefore hc ht, classify_of_lastBefore hc' hu]
      exact Context.ofTrail_of_isCut hcut _
  | @marked before after after' t u ht hu hstop hmay hmark =>
      -- one reading ends with the mark, the other with the token that the line ends behind
      have hne : t.token.kind ≠ .op .semicolon := by
        intro heq
        rw [heq] at hmay
        exact absurd hmay (by decide)
      obtain ⟨left, span, rest, -, hread⟩ := exists_readAt ht.mem hne
      have hlen : utf8Length t.token.text.toList < cursor - t.start.offset := by
        have := hread.stop_eq
        omega
      rw [classify_of_lastBefore hc ht, classify_of_lastBefore hc' hu, hmark,
        Context.ofTrail_lineEnd]
      exact Context.ofTrail_of_mayEndLine hmay hlen

/-- **Text behind the cursor does not matter.**  If the cursor stands between two characters, if a
lexeme that it splits is a literal or an identifier that is no keyword up to the cursor, and if it
does not split the mark that opens a comment, then the text in front of the cursor alone gives the
same context. -/
theorem classify_takeBytes (source : String) (cursor : Nat)
    (hcursor : IsBoundary source.toList cursor)
    (htoken : ∀ t ∈ Lexeme.ofText source.toList, t.start.offset < cursor → cursor < t.stop.offset →
      MayHold source.toList cursor t)
    (hcomment : ∀ offset, SkipsCommentAt source.toList (utf8Length (byteOrderMark source.toList))
      (Lexeme.ofText source.toList) offset → cursor ≠ offset + 1) :
    classify source cursor = classify (String.ofList (takeBytes cursor source.toList)) cursor := by
  obtain ⟨front, ⟨more, htext⟩, rfl⟩ := hcursor
  have hfront : takeBytes (utf8Length front) source.toList = front :=
    takeBytes_of_isPrefix ⟨more, htext⟩
  rw [hfront]
  refine classify_of_alike ?_ ?_ ?_
  · rw [floorBoundary, hfront]
  · rw [String.toList_ofList, floorBoundary, takeBytes_of_le le_rfl]
  · rw [String.toList_ofList]
    exact alike_ofText htext.symm htoken hcomment

/-- The path of an import is cut in the middle of its string, which loses its closing quote and the
mark of the end of the line behind it. -/
theorem classify_takeBytes_import :
    classify "import \"fmt\"" 10 = classify "import \"fm" 10 := by
  have hlexemes : Lexeme.ofText "import \"fmt\"".toList =
      [⟨⟨.keyword .import_, "import"⟩, ⟨1, 1, 0⟩, ⟨1, 7, 6⟩⟩,
        ⟨⟨.string, "\"fmt\""⟩, ⟨1, 8, 7⟩, ⟨1, 13, 12⟩⟩,
        ⟨.lineEnd, ⟨1, 13, 12⟩, ⟨1, 13, 12⟩⟩] :=
    calc Lexeme.ofText "import \"fmt\"".toList
        = _ :: Lexer.lexemes ⟨" \"fmt\"".toList, ⟨1, 7, 6⟩, false⟩ :=
          Lexer.lexemes_of_step (Lexer.step_of_next (by decide))
      _ = _ :: _ :: Lexer.lexemes ⟨[], ⟨1, 13, 12⟩, true⟩ :=
          congrArg _ (Lexer.lexemes_of_step (Lexer.step_of_next (by decide)))
      _ = _ :: _ :: _ :: Lexer.lexemes ⟨[], ⟨1, 13, 12⟩, false⟩ :=
          congrArg _ (congrArg _ (Lexer.lexemes_of_step (Lexer.step_of_next (by decide))))
      _ = _ := congrArg _ (congrArg _ (congrArg _ (Lexer.lexemes_of_done ⟨rfl, Gap.nil⟩)))
  have hboundary : IsBoundary "import \"fmt\"".toList 10 :=
    ⟨"import \"fm".toList, by decide, by decide⟩
  have htoken : ∀ t ∈ Lexeme.ofText "import \"fmt\"".toList, t.start.offset < 10 →
      10 < t.stop.offset → MayHold "import \"fmt\"".toList 10 t := by
    rw [hlexemes]
    simp [MayHold]
  have hcomment : ∀ offset, SkipsCommentAt "import \"fmt\"".toList 0
      (Lexeme.ofText "import \"fmt\"".toList) offset → 10 ≠ offset + 1 := by
    rw [hlexemes]
    rintro offset ⟨m, gap, hgap, front, back, hslice, -⟩
    -- no gap is long enough for a comment
    have hshort : ∀ gap ∈ gapBounds 0 12 [⟨⟨.keyword .import_, "import"⟩, ⟨1, 1, 0⟩, ⟨1, 7, 6⟩⟩,
        ⟨⟨.string, "\"fmt\""⟩, ⟨1, 8, 7⟩, ⟨1, 13, 12⟩⟩, ⟨.lineEnd, ⟨1, 13, 12⟩, ⟨1, 13, 12⟩⟩],
        (slice "import \"fmt\"".toList gap.1 gap.2).length < 2 := by decide
    have hlen := hshort gap hgap
    have htwo := m.two_le_length_text
    rw [hslice, List.length_append, List.length_append] at hlen
    omega
  have h := classify_takeBytes "import \"fmt\"" 10 hboundary htoken hcomment
  rwa [show String.ofList (takeBytes 10 "import \"fmt\"".toList) = "import \"fm" by decide] at h

end Caret
