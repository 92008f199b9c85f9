/-
**Reading a text report back.**

A report in lines of text escapes nothing.  The expression in it may hold newlines, because a raw string
does, and so may the path of an import; a line that looks like the next field is no proof that the field
has ended.  Nevertheless the text tells the fields apart.  The name of the context ends at the first
newline and the place of the cursor starts behind the last one.  What is left between them is an expression
and a text that is typed, and one of these is known: for the path of an import the expression is empty, and
for every other context what is typed is a part of a name, or a keyword, and holds no newline.

Main definitions:

* `Caret.Report.Legible` — a report in which a newline in the text that is typed is a newline in the path
  of an import.

Main results:

* `Caret.Report.text_eq_iff` — legible reports with the same text have the same fields;
* `Caret.newline_not_mem_typed` — what is typed outside of the path of an import stands in one line;
* `Caret.Report.legible_ofCursor` — every report of a cursor is legible;
* `Caret.Report.render_text_eq_iff` — **a text report is read back in one way only**.
-/

import Caret.Report
import Caret.Proofs.Separator
import Caret.Proofs.Typed

set_option relaxedAutoImplicit false
set_option autoImplicit false

namespace Caret

/-! ### Cutting at a separator -/

section

variable {a : Char} {x x' z z' : List Char}

/-- The first place where a character stands cuts a text in one way. -/
theorem append_cons_inj_of_not_mem_left (hx : a ∉ x) (hx' : a ∉ x') :
    x ++ a :: z = x' ++ a :: z' ↔ x = x' ∧ z = z' := by
  have hrun : ∀ {y w : List Char}, a ∉ y → Cut.run (· != a) (y ++ a :: w) = ⟨y, a :: w⟩ := by
    intro y w hy
    refine Cut.run_append (fun c hc => ?_) fun c hc => ?_
    · simpa using fun h : c = a => hy (h ▸ hc)
    · obtain rfl : a = c := by simpa using hc
      simp
  constructor
  · intro h
    have hcut := (hrun hx).symm.trans ((congrArg _ h).trans (hrun hx'))
    simpa using hcut
  · rintro ⟨rfl, rfl⟩
    rfl

/-- So does the last place. -/
theorem append_cons_inj_of_not_mem_right (hz : a ∉ z) (hz' : a ∉ z') :
    x ++ a :: z = x' ++ a :: z' ↔ x = x' ∧ z = z' := by
  have hmirror : z.reverse ++ a :: x.reverse = z'.reverse ++ a :: x'.reverse ↔
      z.reverse = z'.reverse ∧ x.reverse = x'.reverse :=
    append_cons_inj_of_not_mem_left (mt List.mem_reverse.1 hz) (mt List.mem_reverse.1 hz')
  rw [← List.reverse_inj, List.reverse_append, List.reverse_append, List.reverse_cons, List.reverse_cons,
    List.append_assoc, List.append_assoc, List.singleton_append, List.singleton_append, hmirror,
    List.reverse_inj, List.reverse_inj, and_comm]

end

/-! ### The fields -/

/-- The name of a kind of context stands in one line. -/
theorem ContextKind.newline_not_mem_name (kind : ContextKind) : '\n' ∉ kind.name.toList := by
  cases kind <;> decide

/-- The kinds of context have different names. -/
theorem ContextKind.name_inj {kind kind' : ContextKind} : kind.name = kind'.name ↔ kind = kind' := by
  constructor
  · cases kind <;> cases kind' <;> decide
  · rintro rfl
    rfl

namespace Position

/-- The short form of a place: two rows of digits with a colon between them. -/
theorem toList_render (p : Position) :
    p.render.toList = Nat.toDigits 10 p.line ++ ':' :: Nat.toDigits 10 p.column := by
  simp [render, Nat.repr_eq_ofList_toDigits]

/-- A character that is neither a digit nor a colon is not in the short form of a place. -/
theorem not_mem_render {c : Char} (hdigit : c.isDigit = false) (hcolon : c ≠ ':') (p : Position) :
    c ∉ p.render.toList := by
  have hnot : ∀ n : Nat, c ∉ Nat.toDigits 10 n := fun n h => by
    simp [Nat.isDigit_of_mem_toDigits (by decide) (by decide) h] at hdigit
  rw [toList_render, List.mem_append, List.mem_cons]
  rintro (h | rfl | h)
  · exact hnot _ h
  · exact hcolon rfl
  · exact hnot _ h

/-- The short form of a place tells its line and column. -/
theorem render_eq_iff {p q : Position} :
    p.render = q.render ↔ p.line = q.line ∧ p.column = q.column := by
  have hcolon : ∀ n : Nat, ':' ∉ Nat.toDigits 10 n := fun n h =>
    absurd (Nat.isDigit_of_mem_toDigits (by decide) (by decide) h) (by decide)
  have hdigits : ∀ {m n : Nat}, Nat.toDigits 10 m = Nat.toDigits 10 n ↔ m = n := fun {m n} =>
    ⟨fun h => by rw [← Nat.ofDigitChars_ten_toDigits (n := m), h, Nat.ofDigitChars_ten_toDigits],
      congrArg _⟩
  rw [← String.toList_inj, toList_render, toList_render,
    append_cons_inj_of_not_mem_left (hcolon _) (hcolon _), hdigits, hdigits]

end Position

/-! ### Legible reports -/

/-- There is no expression in front of the path of an import. -/
theorem Context.expression_of_kind {context : Context} (h : context.kind = .importPath) :
    context.expression = "" := by
  rw [eq_importPath_of_kind h]
  rfl

namespace Report

/-- A newline in the text that is typed is a newline in the path of an import. -/
def Legible (r : Report) : Prop :=
  '\n' ∈ r.context.typed.toList → r.context.kind = .importPath

/-- The lines of a text report.  The second and the third field may go on over several lines. -/
theorem toList_text (r : Report) :
    r.text.toList = ("context=" ++ r.context.kind.name).toList ++ '\n' ::
      (("expr=" ++ r.context.expression).toList ++ '\n' ::
        (("partial=" ++ r.context.typed).toList ++ '\n' :: ("cursor=" ++ r.cursor.render).toList)) := by
  have htext : r.text = "context=" ++ r.context.kind.name ++ "\nexpr=" ++ r.context.expression ++
      "\npartial=" ++ r.context.typed ++ "\ncursor=" ++ r.cursor.render := rfl
  simp [htext]

/-- Legible reports with the same text have the same fields. -/
theorem text_eq_iff {r r' : Report} (h : r.Legible) (h' : r'.Legible) :
    r.text = r'.text ↔ r.context.kind = r'.context.kind ∧
      r.context.expression = r'.context.expression ∧ r.context.typed = r'.context.typed ∧
        r.cursor.line = r'.cursor.line ∧ r.cursor.column = r'.cursor.column := by
  rw [← Position.render_eq_iff]
  refine ⟨fun htext => ?_, fun ⟨hkind, hexpr, htyped, hcursor⟩ => by
    rw [← String.toList_inj, toList_text, toList_text, hkind, hexpr, htyped, hcursor]⟩
  have hname : ∀ r : Report, '\n' ∉ ("context=" ++ r.context.kind.name).toList := fun r => by
    simp [r.context.kind.newline_not_mem_name]
  have hcursor : ∀ r : Report, '\n' ∉ ("cursor=" ++ r.cursor.render).toList := fun r => by
    simp [r.cursor.not_mem_render (c := '\n') (by decide) (by decide)]
  -- the first newline ends the name of the context
  rw [← String.toList_inj, toList_text, toList_text,
    append_cons_inj_of_not_mem_left (hname r) (hname r')] at htext
  obtain ⟨hkind, hfields⟩ := htext
  rw [String.toList_inj, String.append_right_inj, ContextKind.name_inj] at hkind
  -- and the last one ends what is typed
  have hassoc : ∀ xs ys zs : List Char,
      xs ++ '\n' :: (ys ++ '\n' :: zs) = (xs ++ '\n' :: ys) ++ '\n' :: zs := by simp
  rw [hassoc, hassoc, append_cons_inj_of_not_mem_right (hcursor r) (hcursor r')] at hfields
  obtain ⟨hmiddle, hplace⟩ := hfields
  rw [String.toList_inj, String.append_right_inj] at hplace
  suffices hboth : r.context.expression = r'.context.expression ∧ r.context.typed = r'.context.typed from
    ⟨hkind, hboth.1, hboth.2, hplace⟩
  by_cases himport : r.context.kind = .importPath
  · have hexpr := Context.expression_of_kind himport
    have hexpr' := Context.expression_of_kind (hkind.symm.trans himport)
    rw [hexpr, hexpr'] at hmiddle ⊢
    simpa [String.toList_inj] using hmiddle
  · have htyped : ∀ {r : Report}, r.Legible → r.context.kind ≠ .importPath →
        '\n' ∉ ("partial=" ++ r.context.typed).toList := fun hr hne => by
      simp [mt hr hne]
    rw [append_cons_inj_of_not_mem_right (htyped h himport) (htyped h' (hkind ▸ himport))] at hmiddle
    simpa [String.toList_inj] using hmiddle

/-- Without that the text of a report may be read in two ways. -/
example (place : Position) :
    text ⟨place, .selector (some "a\npartial=b") "c"⟩ = text ⟨place, .selector (some "a") "b\npartial=c"⟩ := by
  rw [← String.toList_inj, toList_text, toList_text]
  simp [Context.kind, Context.expression, Context.typed]

end Report

/-! ### Reports of a cursor -/

/-- An identifier consists of the characters of words. -/
theorem Lexeme.isWordChar_of_scan {cs : List Char} {word : Cut} (h : scan cs = (.ident, word)) :
    ∀ c ∈ word.taken, isWordChar c = true := by
  cases cs with
  | nil => simp [scan] at h
  | cons c cs =>
      rw [scan_letter cs (isLetter_of_scan h)] at h
      rw [← (Prod.mk.inj h).2]
      exact Cut.forall_mem_run isWordChar (c :: cs)

/-- Outside of the path of an import a character that is typed stands in the name at the cursor, or in a
keyword that opens a declaration. -/
theorem Context.mem_typed_ofTrail {before after : List Token} {t : Token} {distance : Nat} {c : Char}
    (himport : (ofTrail ⟨before, t, after⟩ distance).kind ≠ .importPath)
    (h : c ∈ (ofTrail ⟨before, t, after⟩ distance).typed.toList) :
    t.kind = .ident ∧ c ∈ t.text.toList ∨ ∃ k ∈ Keyword.declaring, c ∈ k.spelling.toList := by
  by_cases hident : t.kind = .ident
  · left
    rcases Nat.lt_or_ge (utf8Length t.text.toList) distance with hlt | hle
    · simp [ofTrail_ident_of_lt hident hlt, typed] at h
    · rw [typed_ofTrail_ident hident hle, String.toList_ofList] at h
      have hpre := takeBytes_prefix distance t.text.toList
      exact ⟨hident, hpre.subset h⟩
  · right
    by_cases hkeyword : ∃ k ∈ Keyword.declaring, t.kind = .keyword k
    · obtain ⟨k, hmem, hk⟩ := hkeyword
      rw [typed_ofTrail_keyword hk hmem] at h
      exact ⟨k, hmem, h⟩
    · rw [typed_ofTrail_of_ne hident (by simpa using hkeyword) himport] at h
      simp at h

/-- What is typed outside of the path of an import stands in one line. -/
theorem newline_not_mem_typed {source : String} {cursor : Nat}
    (h : (classify source cursor).kind ≠ .importPath) :
    '\n' ∉ (classify source cursor).typed.toList := by
  rcases exists_lastBefore (ordered_ofText source.toList) (floorBoundary source.toList cursor) with
    hnone | ⟨before, t, after, hlast⟩
  · rw [classify_of_none rfl hnone]
    simp [Context.typed]
  · rw [classify_of_lastBefore rfl hlast] at h ⊢
    intro hnewline
    rcases Context.mem_typed_ofTrail h hnewline with ⟨hident, hmem⟩ | ⟨k, hk, hmem⟩
    · obtain ⟨front, span, rest, -, hr⟩ := exists_readAt hlast.mem (by simp [hident])
      have hscan := hr.scan
      rw [hident] at hscan
      rw [hr.toList_text] at hmem
      exact absurd (Lexeme.isWordChar_of_scan hscan _ hmem)
        (by rw [isWordChar_of_isSpace (by decide)]; decide)
    · exact absurd hmem (by revert k; decide)

/-- Every report of a cursor is legible. -/
theorem Report.legible_ofCursor (source : String) (cursor : Nat) :
    (Report.ofCursor source cursor).Legible :=
  fun hmem => not_not.1 fun hkind => newline_not_mem_typed hkind hmem

/-- **A text report is read back in one way only.**  Two cursors, in the same source or in two, have the
same text report exactly if the kind of the context, the expression, what is typed, and the line and the
column are the same; and an expression or the path of an import may hold whatever a raw string does. -/
theorem Report.render_text_eq_iff (source source' : String) (cursor cursor' : Nat) :
    (Report.ofCursor source cursor).render .text = (Report.ofCursor source' cursor').render .text ↔
      (classify source cursor).kind = (classify source' cursor').kind ∧
      (classify source cursor).expression = (classify source' cursor').expression ∧
      (classify source cursor).typed = (classify source' cursor').typed ∧
      (Position.ofOffset source.toList cursor).line = (Position.ofOffset source'.toList cursor').line ∧
      (Position.ofOffset source.toList cursor).column
        = (Position.ofOffset source'.toList cursor').column :=
  text_eq_iff (legible_ofCursor source cursor) (legible_ofCursor source' cursor')

end Caret
