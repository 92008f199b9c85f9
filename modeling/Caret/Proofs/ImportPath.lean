/-
**Paths of imports.**

The path of an import is a string literal behind an import declaration that has come so far: the
keyword, a parenthesis if the declaration is a group, the entries that are complete, each with its
semicolon, and the name that the path is imported under, if it has one.  As a language of kinds this
is a regular expression that reads from left to right; the classifier walks over the same tokens from
right to left, and may leave any number of them unread.  Both accept the same tokens.

Main definitions:

* `Caret.importName`, `Caret.importEntry`, `Caret.importHead`, `Caret.importPrefix` — the parts in
  front of a path, and all of them.

Main results:

* `Caret.endsIn_of_opensImport`, `Caret.opensImport_of_entries` — the walk back over entries;
* `Caret.opensImport_iff` — **the walk accepts exactly the tokens that end with a declaration up to
  a path**;
* `Caret.Context.ofTrail_eq_importPath_iff` — when the last token makes the context an import;
* `Caret.classify_eq_importPath_iff` — **import contexts are recognised exactly**.
-/

import Mathlib.Computability.RegularExpressions
import Mathlib.Data.List.Induction
import Caret.Proofs.Seen

set_option relaxedAutoImplicit false
set_option autoImplicit false

namespace Caret

open RegularExpression
open scoped Computability

/-! ### Import declarations -/

/-- The name that a path is imported under, which may be missing. -/
def importName : RegularExpression Kind := 1 + (char .ident + char (.op .period))

/-- An entry of a group with its semicolon. -/
def importEntry : RegularExpression Kind :=
  importName * (char .string * char (.op .semicolon))

/-- The keyword, and the parenthesis of a group. -/
def importHead : RegularExpression Kind :=
  char (.keyword .import_) * (1 + char (.op .lparen))

/-- An import declaration up to a path. -/
def importPrefix : RegularExpression Kind := importHead * star importEntry * importName

theorem mem_importHead {w : List Kind} :
    w ∈ importHead.matches' ↔
      w = [.keyword .import_] ∨ w = [.keyword .import_, .op .lparen] := by
  rw [importHead, matches'_mul, Language.mem_mul]
  constructor
  · rintro ⟨a, rfl, b, rfl | rfl, rfl⟩
    · exact Or.inl rfl
    · exact Or.inr rfl
  · rintro (rfl | rfl)
    · exact ⟨_, rfl, [], Or.inl rfl, rfl⟩
    · exact ⟨_, rfl, _, Or.inr rfl, rfl⟩

theorem mem_importEntry {name : List Kind} (h : name ∈ importName.matches') :
    name ++ [.string, .op .semicolon] ∈ importEntry.matches' := by
  rw [importEntry, matches'_mul, matches'_mul]
  exact Language.append_mem_mul h ⟨_, rfl, _, rfl, rfl⟩

/-! ### The walk back -/

variable {kinds : List Kind}

/-- The kinds `kinds`, nearest first, end with a word of the language `L`. -/
def EndsIn (L : Language Kind) (kinds : List Kind) : Prop :=
  ∃ front decl, kinds.reverse = front ++ decl ∧ decl ∈ L

/-- The tokens in front of an entry, or of the path and its name. -/
abbrev importEntries : Language Kind := (importHead * star importEntry).matches'

theorem mem_importEntries_of_head {w : List Kind} (h : w ∈ importHead.matches') :
    w ∈ importEntries := by
  have := Language.append_mem_mul h (Language.nil_mem_kstar importEntry.matches')
  rwa [List.append_nil] at this

/-- Entries may be added to a declaration one at a time. -/
theorem mem_importEntries_of_mul {w : List Kind}
    (h : w ∈ importEntries * importEntry.matches') : w ∈ importEntries := by
  obtain ⟨a, ha, entry, hentry, rfl⟩ := Language.mem_mul.1 h
  obtain ⟨head, hhead, entries, hentries, rfl⟩ := Language.mem_mul.1 ha
  rw [List.append_assoc]
  have hle : importEntry.matches'∗ * importEntry.matches' ≤ importEntry.matches'∗ :=
    kstar_mul_le_kstar
  exact Language.append_mem_mul hhead (hle (Language.append_mem_mul hentries hentry))

theorem EndsIn.name (word : List Kind) (h : EndsIn importEntries kinds)
    (hw : word.reverse ∈ importName.matches') : EndsIn importPrefix.matches' (word ++ kinds) := by
  obtain ⟨front, decl, heq, hdecl⟩ := h
  refine ⟨front, decl ++ word.reverse, ?_, Language.append_mem_mul hdecl hw⟩
  rw [List.reverse_append, heq, List.append_assoc]

/-- What ends behind an entry ends in front of a path, with no name between. -/
theorem EndsIn.of_entries (named : Bool) (h : EndsIn importEntries kinds) :
    EndsIn (if named then importPrefix.matches' else importEntries) kinds := by
  cases named with
  | false => exact h
  | true => exact h.name [] (Or.inl rfl)

/-- The walk only accepts tokens that end with a declaration.  Unless a name may come, it ends
behind an entry. -/
theorem endsIn_of_opensImport {named : Bool} (h : opensImport named kinds = true) :
    EndsIn (if named then importPrefix.matches' else importEntries) kinds := by
  fun_induction opensImport named kinds with
  | case1 named before ih =>
      -- the entry goes behind the declaration that the rest of the walk has found
      obtain ⟨front, word, heq, hword⟩ := ih h
      obtain ⟨decl, hdecl, name, hname, rfl⟩ := Language.mem_mul.1 hword
      have hentry := Language.append_mem_mul hdecl (mem_importEntry hname)
      exact EndsIn.of_entries named ⟨front, _, by simp [heq], mem_importEntries_of_mul hentry⟩
  | case2 named before =>
      refine EndsIn.of_entries named ⟨before.reverse, [.keyword .import_, .op .lparen], by simp, ?_⟩
      exact mem_importEntries_of_head (mem_importHead.2 (Or.inr rfl))
  | case3 named before =>
      refine EndsIn.of_entries named ⟨before.reverse, [.keyword .import_], by simp, ?_⟩
      exact mem_importEntries_of_head (mem_importHead.2 (Or.inl rfl))
  | case4 named before ih =>
      obtain ⟨rfl, h⟩ := Bool.and_eq_true_iff.1 h
      exact (ih h).name [.ident] (Or.inr (Or.inl rfl))
  | case5 named before ih =>
      obtain ⟨rfl, h⟩ := Bool.and_eq_true_iff.1 h
      exact (ih h).name [.op .period] (Or.inr (Or.inr rfl))
  | case6 => simp at h

/-- The walk takes any name and then a declaration that ends behind an entry. -/
theorem opensImport_name {name decl front : List Kind} (hn : name ∈ importName.matches')
    (h : ∀ named, opensImport named (decl.reverse ++ front) = true) :
    opensImport true (name.reverse ++ (decl.reverse ++ front)) = true := by
  rcases hn with rfl | rfl | rfl
  · exact h true
  · simp [opensImport, h]
  · simp [opensImport, h]

/-- The walk accepts whatever ends behind an entry, whether or not a name may come. -/
theorem opensImport_of_entries {decl : List Kind} (h : decl ∈ importEntries) (front : List Kind)
    (named : Bool) : opensImport named (decl.reverse ++ front) = true := by
  obtain ⟨head, hhead, body, hbody, rfl⟩ := Language.mem_mul.1 h
  obtain ⟨entries, rfl, hentries⟩ := Language.mem_kstar.1 hbody
  clear h hbody
  -- the walk meets the last entry first
  induction entries using List.reverseRecOn generalizing named with
  | nil =>
      rcases mem_importHead.1 hhead with rfl | rfl
      · simp [opensImport]
      · simp [opensImport]
  | append_singleton entries entry ih =>
      obtain ⟨hrest, hentry⟩ := List.forall_mem_append.1 hentries
      obtain ⟨name, hname, path, hpath, rfl⟩ := Language.mem_mul.1 (hentry entry (by simp))
      obtain ⟨a, rfl, b, rfl, rfl⟩ := Language.mem_mul.1 hpath
      have := opensImport_name hname fun named => ih named hrest
      simpa [opensImport] using this

/-- **The walk accepts exactly the tokens that end with an import declaration up to a path.** -/
theorem opensImport_iff :
    opensImport true kinds = true ↔ EndsIn importPrefix.matches' kinds := by
  constructor
  · intro h
    simpa using endsIn_of_opensImport h
  · rintro ⟨front, word, heq, hword⟩
    obtain ⟨decl, hdecl, name, hname, rfl⟩ := Language.mem_mul.1 hword
    have h := opensImport_name hname fun named => opensImport_of_entries hdecl front.reverse named
    have hkinds : kinds = name.reverse ++ (decl.reverse ++ front.reverse) := by
      rw [← List.reverse_reverse kinds, heq]
      simp
    rwa [hkinds]

example : importPrefix.rmatch
    [.keyword .import_, .op .lparen, .ident, .string, .op .semicolon, .op .period] = true := by
  decide

/-! ### The context of a path -/

namespace Context

theorem behind_ne_importPath (t : Trail) (typed path : String) :
    behind t typed ≠ .importPath path := by
  unfold behind
  split <;> simp

/-- Only a string behind an import declaration, with the cursor inside, is the path of an import. -/
theorem ofTrail_eq_importPath_iff {t : Trail} {distance : Nat} {path : String} :
    ofTrail t distance = .importPath path ↔
      t.kind = .string ∧ insideString t.current distance = true ∧
        opensImport true (t.before.map (·.kind)) = true ∧
        path = String.ofList ((takeBytes distance t.current.text.toList).drop 1) := by
  by_cases hk : t.kind = .string
  · rw [ofTrail, if_pos hk, within]
    split
    · next h =>
        obtain ⟨hin, hop⟩ := Bool.and_eq_true_iff.1 h
        simp [hk, hin, hop, eq_comm]
    · next h =>
        rw [Bool.and_eq_true] at h
        constructor
        · simp
        · rintro ⟨-, hin, hop, -⟩
          exact absurd ⟨hin, hop⟩ h
  · rw [ofTrail, if_neg hk]
    constructor
    · intro h
      split at h
      · simp at h
      · exact absurd h (behind_ne_importPath _ _ _)
      · split at h
        · simp at h
        · exact absurd h (behind_ne_importPath _ _ _)
    · rintro ⟨h, -⟩
      exact absurd h hk

end Context

/-! ### The cursor in a literal -/

variable {front span rest : List Char} {t : Lexeme} {cursor : Nat}

/-- The part of a string up to a cursor inside of it, without the opening quote, is a slice of the
text. -/
theorem ReadAt.drop_takeBytes {text : List Char} (h : ReadAt front span rest t)
    (htext : text = front ++ (span ++ rest)) (hk : t.token.kind = .string)
    (hlt : t.start.offset < cursor) (hle : cursor ≤ t.stop.offset) :
    (takeBytes (cursor - t.start.offset) span).drop 1 = slice text (t.start.offset + 1) cursor := by
  obtain ⟨quote, -, hquote⟩ := h.exists_quote htext hk
  rw [h.takeBytes_eq_slice htext hlt.le hle, ← slice_append_slice (Nat.le_succ _) hlt, hquote]
  rfl

/-- **Import contexts are recognised exactly.**  The offset `c` is the cursor, moved back into the
text and to the start of its character.  The context is the path of an import if and only if the
last token before `c` is a string with `c` inside, behind an import declaration that has come so
far; the path is then what stands between the opening quote and `c`. -/
theorem classify_eq_importPath_iff (source : String) (cursor : Nat) (path : String) :
    let text := source.toList
    let c := floorBoundary text cursor
    IsGreatest {b | IsBoundary text b ∧ b ≤ min cursor (utf8Length text)} c ∧
    (classify source cursor = .importPath path ↔
      ∃ before t after, LastBefore (Lexeme.ofText text) c before t after ∧
        t.token.kind = .string ∧
        (c < t.stop.offset ∨ c = t.stop.offset ∧ ¬ Quoted.Closed t.token.text.toList) ∧
        (∃ front decl, before.map (·.token.kind) = front ++ decl ∧ decl ∈ importPrefix.matches') ∧
        path = String.ofList (slice text (t.start.offset + 1) c)) := by
  intro text c
  refine ⟨isGreatest_floorBoundary text cursor, ?_⟩
  have ho := ordered_ofText text
  -- what the classifier asks of the last token is what is asked here
  have key : ∀ before t after, LastBefore (Lexeme.ofText text) c before t after →
      (classify source cursor = .importPath path ↔ t.token.kind = .string ∧
        (c < t.stop.offset ∨ c = t.stop.offset ∧ ¬ Quoted.Closed t.token.text.toList) ∧
        (∃ front decl, before.map (·.token.kind) = front ++ decl ∧ decl ∈ importPrefix.matches') ∧
        path = String.ofList (slice text (t.start.offset + 1) c)) := by
    intro before t after h
    rw [classify_of_lastBefore rfl h, Context.ofTrail_eq_importPath_iff, Trail.kind]
    refine and_congr_right ?_
    intro hk
    have hne : t.token ≠ .lineEnd := by
      intro heq
      have hkind : Token.lineEnd.kind = .string := heq ▸ hk
      exact absurd hkind (by decide)
    obtain ⟨front, span, rest, htext, hread⟩ := Lexer.readAt_of_mem (Lexer.inText_ofText text)
      (show t ∈ Lexeme.ofText text from h.eq ▸ by simp) hne
    rw [hread.insideString_iff hk h.lt, hread.toList_text]
    refine and_congr_right fun hin => and_congr ?_ ?_
    · rw [opensImport_iff, EndsIn]
      simp [Function.comp_def]
    · have hle : c ≤ t.stop.offset := by omega
      rw [hread.drop_takeBytes htext hk h.lt hle]
  constructor
  · -- without a lexeme in front of the cursor nothing is recognised
    intro hc
    rcases exists_lastBefore ho c with hnone | ⟨before, t, after, h⟩
    · rw [classify_of_none rfl hnone] at hc
      exact absurd hc (by simp)
    · exact ⟨before, t, after, h, (key before t after h).1 hc⟩
  · rintro ⟨before, t, after, h, hrest⟩
    exact (key before t after h).2 hrest

end Caret
