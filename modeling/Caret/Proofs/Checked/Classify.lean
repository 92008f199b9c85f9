/-
**Classifying never fails.**

This module puts together the classifier as a program that works with offsets and indices: it moves the
cursor back to a boundary, reads the tokens in front of it, takes differences of offsets, cuts the text
of the last token at the cursor, and walks back over the array of tokens.  Each of these steps could
fail, and each of the loops could run on for ever.

None does.  The tokenizer only stops at boundaries, and the cursor has been moved to one; so the cursor
is a boundary of the text of the token that it stands in.  Hence the program gives a result for every
source text and every cursor, past the end or inside of a character, and it is the result of
`Caret.classify`.  Lines and columns are numbers without a bound here.

Main definitions:

* `Caret.Checked.scan?` — the walk on the last token in front of the cursor, and how far the cursor is
  behind the start of this token;
* `Caret.Checked.Walk.behind?`, `Caret.Checked.Walk.within?`, `Caret.Checked.Walk.context?` — the
  context behind a token, in a string, and at any token;
* `Caret.Checked.classify?` — the context at an offset of a source text.

Main results:

* `Caret.Checked.Reaches.of_readAt` — the cursor is a boundary of the token that it stands in;
* `Caret.Checked.Walk.context?_ofTrail` — the context at a token is found;
* `Caret.Checked.classify?_eq` — **the classifier never fails and always ends**.
-/

import Caret.Proofs.Checked.Closing
import Caret.Proofs.Checked.Lexer
import Caret.Proofs.Checked.Walk
import Caret.Proofs.Seen

set_option relaxedAutoImplicit false
set_option autoImplicit false

namespace Caret.Checked

/-! ### The classifier -/

/-- The walk on the last token that starts before the cursor, and the distance of the cursor from its
start.  The cursor is moved back into the text and to a boundary first.  There may be no such token,
and that is no failure. -/
def scan? (text : List Char) (cursor : Nat) : Option (Option (Walk × Nat)) := do
  let cursor ← floor? text (min cursor (utf8Length text))
  let (tokens, last) ← (Scanner.ofText text).collect? cursor [] 0
  match sub? tokens.length 1 with
  | none => return none
  | some index => return some (⟨tokens, index⟩, ← sub? cursor last)

namespace Walk

/-- The context behind the token at the position, with `typed` typed since. -/
def behind? (typed : String) (w : Walk) : Option Context := do
  match ← w.kind? with
  | .op .period =>
    let (operand, _) ← w.expression?
    return .selector (if operand = "" then none else some operand) typed
  | .op .comma => return .compositeLiteral (← w.typeName?).1 typed
  | .op .lbrace => return .compositeLiteral (← w.typeName?).1 typed
  | _ => return .unknown typed

/-- The context behind the token before the one at the position, which is typed. -/
def beforeTyped? (typed : String) (w : Walk) : Option Context := do
  let (moved, w) ← w.stepBack?
  if moved then w.behind? typed else return .unknown typed

/-- Is a cursor `distance` bytes after the start of a string literal inside of it? -/
def insideString? (t : Token) (distance : Nat) : Option Bool :=
  let length := utf8Length t.literal.toList
  if distance < length then some true
  else if distance = length then isUnterminated? t
  else some false

/-- The context in the string literal at the position, `distance` bytes after its start.  A path that
is no slice of the literal counts as empty. -/
def within? (distance : Nat) (w : Walk) : Option Context := do
  let t ← w.current?
  if ← insideString? t distance then
    if ← w.inImport? then
      return .importPath (String.ofList ((slice? 1 distance t.literal.toList).getD []))
    else return .unknown ""
  else return .unknown ""

/-- The context of a cursor `distance` bytes after the start of the token at the position. -/
def context? (distance : Nat) (w : Walk) : Option Context := do
  let t ← w.current?
  match t.kind with
  | .string => w.within? distance
  | .ident =>
    if utf8Length t.literal.toList < distance then return .unknown ""
    else w.beforeTyped? (String.ofList (← cutAt? distance t.literal.toList).taken)
  | .keyword k =>
    if k ∈ Keyword.declaring then w.beforeTyped? t.literal else w.behind? ""
  | _ => w.behind? ""

end Walk

/-- The context at a byte offset of a source text. -/
def classify? (source : String) (cursor : Nat) : Option Context := do
  match ← scan? source.toList cursor with
  | none => return .unknown ""
  | some (w, distance) => w.context? distance

/-! ### The cursor in a token -/

/-- What is needed of a cursor `distance` bytes after the start of a token: within a name or a string
it is a boundary, and behind the opening quote of a string, which is a single byte. -/
structure Reaches (t : Token) (distance : Nat) : Prop where
  boundary : t.kind = .ident ∨ t.kind = .string → distance ≤ utf8Length t.text.toList →
    IsBoundary t.text.toList distance
  quote : t.kind = .string → 0 < distance ∧
    ∃ quote rest, t.text.toList = quote :: rest ∧ quote.utf8Size = 1

section

variable {t : Token} {distance : Nat}

/-- A name can be cut at the cursor. -/
theorem Reaches.cutAt? (h : Reaches t distance) (hk : t.kind = .ident)
    (hle : distance ≤ utf8Length t.text.toList) : ∃ back, cutAt? distance t.text.toList
      = some ⟨takeBytes distance t.text.toList, back⟩ := by
  obtain ⟨front, ⟨back, htext⟩, rfl⟩ := h.boundary (Or.inl hk) hle
  refine ⟨back, ?_⟩
  rw [← htext, takeBytes_append, Checked.cutAt?_append]

/-- The path up to the cursor is a slice of the string. -/
theorem Reaches.slice? (h : Reaches t distance) (hk : t.kind = .string)
    (hle : distance ≤ utf8Length t.text.toList) :
    slice? 1 distance t.text.toList = some ((takeBytes distance t.text.toList).drop 1) := by
  obtain ⟨hpos, quote, rest, htext, hsize⟩ := h.quote hk
  obtain ⟨front, ⟨back, hfront⟩, rfl⟩ := h.boundary (Or.inr hk) hle
  obtain ⟨c, front, rfl⟩ := List.exists_cons_of_ne_nil (l := front) (by rintro rfl; simp at hpos)
  obtain rfl : c = quote := by
    rw [htext] at hfront
    exact (List.cons.inj hfront).1
  have hslice := slice?_append [c] front back
  rw [utf8Length_cons, utf8Length_nil, hsize] at hslice
  rw [← hfront, takeBytes_append, utf8Length_cons, hsize]
  exact hslice

/-- A boundary of the text is a boundary of the part of it that it stands in. -/
theorem isBoundary_of_append {front span rest : List Char} {n : Nat}
    (h : IsBoundary (front ++ (span ++ rest)) n) (hle : utf8Length front ≤ n)
    (hspan : n - utf8Length front ≤ utf8Length span) : IsBoundary span (n - utf8Length front) := by
  obtain ⟨left, hprefix, rfl⟩ := h
  have hleft : left = front ++ takeBytes (utf8Length left - utf8Length front) span := by
    have htake : takeBytes (utf8Length left - utf8Length front) (span ++ rest)
        = takeBytes (utf8Length left - utf8Length front) span := takeBytes_append_of_le hspan
    rw [← htake, ← takeBytes_append_left _ hle, takeBytes_of_isPrefix hprefix]
  refine ⟨takeBytes (utf8Length left - utf8Length front) span, takeBytes_prefix _ span, ?_⟩
  have hlength := congrArg utf8Length hleft
  rw [utf8Length_append] at hlength
  omega

/-- A cursor that is a boundary of the text is one of the token that it stands in. -/
theorem Reaches.of_readAt {text front span rest : List Char} {t : Lexeme} {cursor : Nat}
    (hread : ReadAt front span rest t) (htext : text = front ++ (span ++ rest))
    (hlt : t.start.offset < cursor) (hcursor : IsBoundary text cursor) :
    Reaches t.token (cursor - t.start.offset) where
  boundary _ hle := by
    rw [hread.toList_text, hread.start] at hle ⊢
    rw [hread.start] at hlt
    exact isBoundary_of_append (htext ▸ hcursor) hlt.le hle
  quote hk := by
    refine ⟨Nat.sub_pos_of_lt hlt, ?_⟩
    obtain ⟨quote, tail, rfl⟩ := List.exists_cons_of_ne_nil hread.ne_nil
    refine ⟨quote, tail, hread.toList_text, ?_⟩
    have hscan := hread.scan
    rw [hk] at hscan
    rcases Lexeme.isQuote_of_scan hscan (Or.inl rfl) with rfl | rfl | rfl <;> decide

/-- So is one in any lexeme of a text. -/
theorem Reaches.of_mem {text : List Char} {t : Lexeme} {cursor : Nat} (ht : t ∈ Lexeme.ofText text)
    (hlt : t.start.offset < cursor) (hcursor : IsBoundary text cursor) :
    Reaches t.token (cursor - t.start.offset) := by
  by_cases hmark : t.token = .lineEnd
  · rw [hmark]
    exact ⟨fun h => absurd h (by decide), fun h => absurd h (by decide)⟩
  · obtain ⟨front, span, rest, htext, hread⟩ :=
      Lexer.readAt_of_mem (Lexer.inText_ofText text) ht hmark
    exact .of_readAt hread htext hlt hcursor

end

/-! ### The context is found -/

namespace Walk

variable {t : Trail} {distance : Nat}

theorem behind?_ofTrail (typed : String) (t : Trail) :
    (ofTrail t).behind? typed = some (Context.behind t typed) := by
  rw [behind?, kind?_ofTrail, Context.behind]
  simp only [Option.bind_eq_bind, Option.bind_some, expression?_ofTrail, typeName?_ofTrail]
  cases t.kind with
  | op o => cases o <;> rfl
  | illegal | ident | int | float | imag | char | string | keyword => rfl

theorem beforeTyped?_ofTrail (typed : String) (t : Trail) : (ofTrail t).beforeTyped? typed
    = some (match t.stepBack? with
      | none => .unknown typed
      | some s => Context.behind s typed) := by
  rw [beforeTyped?]
  cases hb : t.before with
  | nil =>
      rw [stepBack?_of_nil hb, Trail.stepBack?, hb]
      rfl
  | cons u before =>
      obtain ⟨s, htokens, rfl, rfl, hstep⟩ := exists_stepBack? hb
      have hs : t.stepBack? = some s := by
        rw [Trail.stepBack?, hb]
        refine congrArg some (Trail.eq_of_index ?_ rfl)
        rw [htokens]
        exact Trail.tokens_land (by rw [hb]; rfl)
      rw [hstep, hs]
      exact behind?_ofTrail typed s

theorem insideString?_eq {u : Token} (hk : u.kind = .string) :
    insideString? u distance = some (insideString u distance) := by
  have hliteral : u.literal = u.text := Token.literal_of_isLiteral (by rw [hk]; rfl)
  rw [insideString?, insideString, hliteral, isUnterminated?_eq]
  by_cases hlt : distance < utf8Length u.text.toList
  · simp [hlt]
  · by_cases heq : distance = utf8Length u.text.toList
    · simp [heq]
    · simp [hlt, heq]

/-- The path of an import is a slice of its string. -/
theorem within?_ofTrail (hk : t.kind = .string) (h : Reaches t.current distance) :
    (ofTrail t).within? distance = some (Context.within t distance) := by
  have hk' : t.current.kind = .string := hk
  have hliteral : t.current.literal = t.current.text := Token.literal_of_isLiteral (by rw [hk']; rfl)
  rw [within?, current?_ofTrail, Context.within]
  simp only [Option.bind_eq_bind, Option.bind_some, insideString?_eq hk', inImport?_ofTrail,
    hliteral]
  cases hin : insideString t.current distance with
  | false => rfl
  | true =>
      have hle : distance ≤ utf8Length t.current.text.toList := by
        simp only [insideString, Bool.or_eq_true, decide_eq_true_iff, Bool.and_eq_true,
          beq_iff_eq] at hin
        omega
      rw [if_pos rfl, Bool.true_and, h.slice? hk' hle]
      cases opensImport true (t.before.map (·.kind)) <;> rfl

/-- The context at a token is found if the cursor is a boundary where it has to be one. -/
theorem context?_ofTrail (h : Reaches t.current distance) :
    (ofTrail t).context? distance = some (Context.ofTrail t distance) := by
  rw [context?, current?_ofTrail]
  simp only [Option.bind_eq_bind, Option.bind_some]
  -- only names, strings and the keywords that open a declaration are looked into
  cases hk : t.current.kind with
  | string =>
      have hstring : t.kind = .string := hk
      rw [Context.ofTrail, if_pos hstring]
      exact within?_ofTrail hstring h
  | ident =>
      have hstring : t.kind ≠ .string := by simp [Trail.kind, hk]
      have hliteral : t.current.literal = t.current.text :=
        Token.literal_of_isLiteral (by rw [hk]; rfl)
      simp only [Context.ofTrail, if_neg hstring, Typed.ofToken, hk, hliteral]
      by_cases hlt : utf8Length t.current.text.toList < distance
      · rw [if_pos hlt, if_pos hlt]
        rfl
      · obtain ⟨back, hcut⟩ := h.cutAt? hk (Nat.le_of_not_lt hlt)
        rw [if_neg hlt, if_neg hlt, hcut]
        exact beforeTyped?_ofTrail _ t
  | keyword k =>
      have hstring : t.kind ≠ .string := by simp [Trail.kind, hk]
      have hliteral : t.current.literal = k.spelling := by
        simp [Token.literal, Kind.isLiteral, Kind.spelling, hk]
      simp only [Context.ofTrail, if_neg hstring, Typed.ofToken, hk, hliteral]
      by_cases hopens : k ∈ Keyword.declaring
      · rw [if_pos hopens, if_pos hopens]
        exact beforeTyped?_ofTrail _ t
      · rw [if_neg hopens, if_neg hopens]
        exact behind?_ofTrail "" t
  | illegal | int | float | imag | char | op =>
      have hstring : t.kind ≠ .string := by simp [Trail.kind, hk]
      simp only [Context.ofTrail, if_neg hstring, Typed.ofToken, hk]
      exact behind?_ofTrail "" t

end Walk

/-! ### No failure -/

theorem floorBoundary_min (text : List Char) (cursor : Nat) :
    floorBoundary text (min cursor (utf8Length text)) = floorBoundary text cursor := by
  rcases Nat.le_total cursor (utf8Length text) with hle | hle
  · rw [Nat.min_eq_left hle]
  · rw [Nat.min_eq_right hle, floorBoundary, floorBoundary, takeBytes_of_le le_rfl,
      takeBytes_of_le hle]

/-- The cursor is moved to a boundary and the tokens in front of it are read. -/
theorem scan?_eq {text : List Char} {cursor : Nat} {seen : List Lexeme}
    (h : (Lexeme.ofText text).takeWhile
      (fun t => decide (t.start.offset < floorBoundary text cursor)) = seen) :
    scan? text cursor = match sub? seen.length 1 with
      | none => some none
      | some index => (sub? (floorBoundary text cursor)
          ((seen.getLast?.map (·.start.offset)).getD 0)).map fun distance =>
            some (⟨seen.map (·.token), index⟩, distance) := by
  have hcollect := Scanner.collect?_ofLexer (floorBoundary text cursor) [] 0
    (Lexer.inText_ofText text)
  rw [← Scanner.ofText_eq, ← Lexeme.ofText, h, List.nil_append] at hcollect
  rw [scan?, floor?_eq (Nat.min_le_right _ _), floorBoundary_min]
  simp only [Option.bind_eq_bind, Option.bind_some, hcollect, List.length_map]
  cases sub? seen.length 1 with
  | none => rfl
  | some index =>
      cases sub? (floorBoundary text cursor) ((seen.getLast?.map (·.start.offset)).getD 0) <;> rfl

/-- Without a token in front of the cursor there is no walk. -/
theorem scan?_of_none {text : List Char} {cursor : Nat}
    (h : ∀ u ∈ Lexeme.ofText text, floorBoundary text cursor ≤ u.start.offset) :
    scan? text cursor = some none := by
  have hseen : (Lexeme.ofText text).takeWhile
      (fun t => decide (t.start.offset < floorBoundary text cursor)) = [] := by
    cases hts : Lexeme.ofText text with
    | nil => rfl
    | cons u us =>
        have hu := h u (hts ▸ List.mem_cons_self)
        exact List.takeWhile_cons_of_neg (by simpa using hu)
  rw [scan?_eq hseen]
  rfl

/-- The walk starts on the last token in front of the cursor. -/
theorem scan?_of_lastBefore {text : List Char} {cursor : Nat} {before after : List Lexeme}
    {t : Lexeme} (h : LastBefore (Lexeme.ofText text) (floorBoundary text cursor) before t after) :
    scan? text cursor = some (some (.ofTrail ⟨before.reverse.map (·.token), t.token, []⟩,
      floorBoundary text cursor - t.start.offset)) := by
  have hlength : sub? (before ++ [t]).length 1 = some before.length := by
    rw [List.length_append, List.length_singleton, sub?_of_le (Nat.le_add_left _ _),
      Nat.add_sub_cancel]
  rw [scan?_eq (h.takeWhile_eq (ordered_ofText text)), hlength]
  simp [sub?_of_le h.lt.le, Walk.ofTrail, Trail.tokens, Trail.index]

/-- The classifier never fails and always ends. -/
theorem classify?_eq (source : String) (cursor : Nat) :
    classify? source cursor = some (classify source cursor) := by
  rw [classify?]
  rcases exists_lastBefore (ordered_ofText source.toList)
    (floorBoundary source.toList cursor) with hnone | ⟨before, t, after, h⟩
  · rw [scan?_of_none hnone, classify_of_none rfl hnone]
    rfl
  · have hcursor : IsBoundary source.toList (floorBoundary source.toList cursor) :=
      (isGreatest_floorBoundary source.toList cursor).1.1
    rw [scan?_of_lastBefore h, classify_of_lastBefore rfl h]
    refine Walk.context?_ofTrail (Reaches.of_mem ?_ h.lt hcursor)
    rw [h.eq]
    exact List.mem_append_right before List.mem_cons_self

end Caret.Checked
