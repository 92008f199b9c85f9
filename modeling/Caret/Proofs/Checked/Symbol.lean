/-
**Scanning operators.**

A scanner reads an operator by its first character and then decides by the next one how to go on: it
moves over an equals sign, say, and has read the operator that ends in it, or it does not find one and
has read the shorter operator.  These decisions are put together here from one combinator.  A decision
is right behind a part of the text if what it gives is the longest operator that starts with that part,
and it may rely on what the decisions in front of it have ruled out.

Main definitions:

* `Caret.Checked.Scanner.give?`, `Caret.Checked.Scanner.follow?` — giving an operator, and deciding by
  the next character;
* `Caret.Checked.Scanner.switch2?`, `Caret.Checked.Scanner.switch3?`,
  `Caret.Checked.Scanner.switch4?` — the families of operators that differ in their ends;
* `Caret.Checked.Scanner.scanOperator?` — the operator at the front, or an illegal character;
* `Caret.Checked.Spells`, `Caret.Checked.Decides` — an operator may be given, and a decision is
  right.

Main results:

* `Caret.Checked.Decides.follow` — a decision is right if both of its branches are;
* `Caret.Checked.Scanner.scanOperator?_of_read?`, `Caret.Checked.Scanner.scanOperator?_of_none` — the
  scanner reads the operator that the text starts with, and nothing else.
-/

import Caret.Proofs.Checked.Scanner
import Caret.Proofs.LongestMatch

set_option relaxedAutoImplicit false
set_option autoImplicit false

namespace Caret.Checked

open Lexer (InText)

namespace Scanner

/-! ### Reading operators -/

/-- Gives an operator that has been read already. -/
def give? (o : Operator) (s : Scanner) : Option (Kind × Scanner) := some (.op o, s)

/-- Goes on with `found` behind the character `c` if it comes next, and with `otherwise` if not. -/
def follow? (c : Char) (found otherwise : Scanner → Option (Kind × Scanner)) (s : Scanner) :
    Option (Kind × Scanner) := do
  let (isNext, s) ← s.advanceIf? c
  if isNext then found s else otherwise s

/-- An operator, or the one that ends in an equals sign. -/
def switch2? (plain eq : Operator) : Scanner → Option (Kind × Scanner) :=
  follow? '=' (give? eq) (give? plain)

/-- An operator, or the one that ends in an equals sign, or the one that ends in `second`. -/
def switch3? (plain eq : Operator) (second : Char) (doubled : Operator) :
    Scanner → Option (Kind × Scanner) :=
  follow? '=' (give? eq) (follow? second (give? doubled) (give? plain))

/-- As before, and an equals sign may follow `second` as well. -/
def switch4? (plain eq : Operator) (second : Char) (doubled doubledEq : Operator) :
    Scanner → Option (Kind × Scanner) :=
  follow? '=' (give? eq) (follow? second (switch2? doubled doubledEq) (give? plain))

/-- A period, or three of them.  Two are not enough, so both are looked at first. -/
def scanPeriod? (s : Scanner) : Option (Kind × Scanner) := do
  if (← s.peek?) = some '.' ∧ (← s.peekNth? 1) = some '.' then
    let s ← s.advance?
    let s ← s.advance?
    return (.op .ellipsis, s)
  else return (.op .period, s)

/-- The operator that starts with `c`, behind this character; an illegal character if there is
none. -/
def behindFirst? : Char → Scanner → Option (Kind × Scanner)
  | '(' => give? .lparen
  | ')' => give? .rparen
  | '[' => give? .lbrack
  | ']' => give? .rbrack
  | '\x7b' => give? .lbrace
  | '\x7d' => give? .rbrace
  | ',' => give? .comma
  | ';' => give? .semicolon
  | ':' => switch2? .colon .define
  | '.' => scanPeriod?
  | '+' => switch3? .add .addAssign '+' .increment
  | '-' => switch3? .sub .subAssign '-' .decrement
  | '*' => switch2? .mul .mulAssign
  | '/' => switch2? .div .divAssign
  | '%' => switch2? .rem .remAssign
  | '^' => switch2? .bitXor .bitXorAssign
  | '<' => follow? '-' (give? .arrow) (switch4? .less .lessEqual '<' .shiftLeft .shiftLeftAssign)
  | '>' => switch4? .greater .greaterEqual '>' .shiftRight .shiftRightAssign
  | '=' => switch2? .assign .equal
  | '!' => switch2? .not .notEqual
  | '&' => follow? '^' (switch2? .bitClear .bitClearAssign)
      (switch3? .bitAnd .bitAndAssign '&' .logicalAnd)
  | '|' => switch3? .bitOr .bitOrAssign '|' .logicalOr
  | '~' => give? .tilde
  | _ => fun s => some (.illegal, s)

/-- The operator at the front, where the next character is `c`. -/
def scanOperator? (c : Char) (s : Scanner) : Option (Kind × Scanner) := do
  behindFirst? c (← s.advance?)

end Scanner

open Scanner (give? follow? switch2? switch3? switch4? scanPeriod? behindFirst?)

/-! ### Right decisions -/

/-- Behind the part `front` of the text, and if none of the characters `excluded` comes next, the
decision `f` gives the operator that starts with `front`. -/
def Decides (front : List Char) (f : Scanner → Option (Kind × Scanner)) (excluded : List Char) :
    Prop :=
  ∀ (text : List Char) (l : Lexer) (rest : List Char), InText text l → l.rest = front ++ rest →
    (∀ c ∈ rest.head?, c ∉ excluded) → ∃ o back, Operator.read? l.rest = some (o, back) ∧
      f (.ofLexer text (l.past ⟨front, rest⟩))
        = some (.op o, .ofLexer text (l.past ⟨o.spelling.toList, back⟩))

/-- The operator `o` is spelled `front`, and longer ones go on by the characters `next` only. -/
def Spells (front : List Char) (o : Operator) (next : List Char) : Prop :=
  o.spelling.toList = front ∧ o.goesOn ⊆ next

instance (front : List Char) (o : Operator) (next : List Char) : Decidable (Spells front o next) :=
  inferInstanceAs (Decidable (_ ∧ _))

section

variable {front excluded : List Char} {c : Char} {f g : Scanner → Option (Kind × Scanner)}
  {o plain eq doubled doubledEq : Operator}

/-- An operator may be given where every character by which a longer one goes on is excluded. -/
theorem Decides.give (h : Spells front o excluded) : Decides front (give? o) excluded := by
  obtain ⟨rfl, hgoesOn⟩ := h
  intro text l rest _ hr hhead
  refine ⟨o, rest, ?_, rfl⟩
  rw [hr, Operator.read?_append fun c hc hgo => hhead c hc (hgoesOn hgo)]

/-- A decision by the next character is right if both of its branches are. -/
theorem Decides.follow (hf : Decides (front ++ [c]) f []) (hg : Decides front g (c :: excluded)) :
    Decides front (follow? c f g) excluded := by
  intro text l rest h hr hhead
  have hin : InText text (l.past ⟨front, rest⟩) := h.past hr.symm
  by_cases hc : rest.head? = some c
  · obtain ⟨rest', rfl⟩ : ∃ rest', rest = c :: rest' := List.head?_eq_some_iff.1 hc
    obtain ⟨o, back, hread, hres⟩ := hf text l rest' h (by simpa using hr) (by simp)
    refine ⟨o, back, hread, ?_⟩
    rw [follow?, Scanner.advanceIf?_ofLexer hin rfl, Lexer.past_past]
    exact hres
  · have hhead' : ∀ d ∈ rest.head?, d ∉ c :: excluded := by
      intro d hd
      rw [List.mem_cons, not_or]
      refine ⟨?_, hhead d hd⟩
      rintro rfl
      exact hc hd
    obtain ⟨o, back, hread, hres⟩ := hg text l rest h hr hhead'
    refine ⟨o, back, hread, ?_⟩
    rw [follow?, Scanner.advanceIf?_ofLexer_ne hin hc]
    exact hres

theorem Decides.switch2 (hp : Spells front plain ('=' :: excluded))
    (he : Spells (front ++ ['=']) eq []) : Decides front (switch2? plain eq) excluded :=
  .follow (.give he) (.give hp)

theorem Decides.switch3 {second : Char} (hp : Spells front plain (second :: '=' :: excluded))
    (he : Spells (front ++ ['=']) eq []) (hd : Spells (front ++ [second]) doubled []) :
    Decides front (switch3? plain eq second doubled) excluded :=
  .follow (.give he) (.follow (.give hd) (.give hp))

theorem Decides.switch4 {second : Char} (hp : Spells front plain (second :: '=' :: excluded))
    (he : Spells (front ++ ['=']) eq []) (hd : Spells (front ++ [second]) doubled ['='])
    (hde : Spells (front ++ [second] ++ ['=']) doubledEq []) :
    Decides front (switch4? plain eq second doubled doubledEq) excluded :=
  .follow (.give he) (.follow (.switch2 hd hde) (.give hp))

end

/-- No operator but the ellipsis starts with a period and goes on. -/
theorem eq_ellipsis_of_spelling {p : Operator} {c : Char} {tail : List Char}
    (h : p.spelling.toList = '.' :: c :: tail) : c :: tail = ['.', '.'] := by
  have hfirst : ∀ q ∈ Operator.all, q.spelling.toList.head? = some '.' →
      q.spelling.toList.tail = [] ∨ q.spelling.toList.tail = ['.', '.'] := by decide +kernel
  rcases hfirst p (Operator.mem_all p) (by rw [h]; rfl) with hp | hp
  · rw [h] at hp
    exact absurd hp (List.cons_ne_nil c tail)
  · rwa [h] at hp

/-- Two periods behind the first make an ellipsis, and one does not. -/
theorem Decides.period : Decides ['.'] scanPeriod? [] := by
  intro text l rest h hr _
  have hin : InText text (l.past ⟨['.'], rest⟩) := h.past hr.symm
  rw [scanPeriod?, Scanner.peek?_ofLexer hin, Scanner.peekNth?_ofLexer hin]
  simp only [Option.bind_eq_bind, Option.bind_some, Lexer.rest_past]
  by_cases hdots : rest.head? = some '.' ∧ rest[1]? = some '.'
  · obtain ⟨hfirst, hsecond⟩ := hdots
    obtain ⟨tail, rfl⟩ := List.head?_eq_some_iff.1 hfirst
    obtain ⟨back, rfl⟩ : ∃ back, tail = '.' :: back := by
      rw [List.getElem?_cons_succ, ← List.head?_eq_getElem?] at hsecond
      exact List.head?_eq_some_iff.1 hsecond
    have hin' : InText text ((l.past ⟨['.'], '.' :: '.' :: back⟩).past ⟨['.'], '.' :: back⟩) :=
      hin.past rfl
    refine ⟨.ellipsis, back, ?_, ?_⟩
    · rw [hr]
      have hgoesOn : Operator.goesOn .ellipsis = [] := by decide
      exact Operator.read?_append (o := .ellipsis) (by simp [hgoesOn])
    · rw [if_pos ⟨hfirst, hsecond⟩, Scanner.advance?_ofLexer hin rfl, Option.bind_some,
        Scanner.advance?_ofLexer hin' rfl, Lexer.past_past, Lexer.past_past]
      rfl
  · refine ⟨.period, rest, ?_, ?_⟩
    · rw [hr]
      refine Operator.read?_append_of_not_isPrefix (o := .period) fun p c tail hp hpre => hdots ?_
      rw [eq_ellipsis_of_spelling hp] at hpre
      obtain ⟨back, rfl⟩ := hpre
      exact ⟨rfl, rfl⟩
    · rw [if_neg hdots]
      rfl

/-! ### The operator at the front -/

/-- The characters that operators start with. -/
def firsts : List Char :=
  ['(', ')', '[', ']', '\x7b', '\x7d', ',', ';', ':', '.', '+', '-', '*', '/', '%', '^', '<', '>',
   '=', '!', '&', '|', '~']

theorem mem_firsts_of_head {o : Operator} {c : Char} (h : o.spelling.toList.head? = some c) :
    c ∈ firsts := by
  have hall : ∀ p ∈ Operator.all, p.spelling.toList.head? ∈ firsts.map some := by decide +kernel
  have ho := hall o (Operator.mem_all o)
  rw [h] at ho
  simpa using ho

/-- The decision behind the first character of an operator is right. -/
theorem decides_behindFirst {c : Char} (hc : c ∈ firsts) : Decides [c] (behindFirst? c) [] := by
  unfold behindFirst?
  split
  case h_10 => exact .period
  case h_17 =>
      exact .follow (.give (by decide))
        (.switch4 (by decide) (by decide) (by decide) (by decide))
  case h_18 => exact .switch4 (by decide) (by decide) (by decide) (by decide)
  case h_21 =>
      exact .follow (.switch2 (by decide) (by decide))
        (.switch3 (by decide) (by decide) (by decide))
  case h_11 | h_12 | h_22 => exact .switch3 (by decide) (by decide) (by decide)
  case h_9 | h_13 | h_14 | h_15 | h_16 | h_19 | h_20 => exact .switch2 (by decide) (by decide)
  case h_24 => simp_all only [firsts, List.mem_cons, List.not_mem_nil, or_self, imp_false]
  all_goals exact .give (by decide)

/-- Behind any other character there is nothing to decide. -/
theorem behindFirst?_of_not_mem {c : Char} (hc : c ∉ firsts) (s : Scanner) :
    behindFirst? c s = some (.illegal, s) := by
  unfold behindFirst?
  split
  case h_24 => rfl
  all_goals exact absurd (by decide) hc

namespace Scanner

variable {text : List Char} {l : Lexer} {c : Char} {cs : List Char}

/-- The scanner reads the operator that the text starts with. -/
theorem scanOperator?_of_read? (h : InText text l) (hr : l.rest = c :: cs) {o : Operator}
    {back : List Char} (hread : Operator.read? l.rest = some (o, back)) :
    (ofLexer text l).scanOperator? c
      = some (.op o, .ofLexer text (l.past ⟨o.spelling.toList, back⟩)) := by
  have hc : c ∈ firsts := by
    refine @mem_firsts_of_head o c ?_
    have happend := (Operator.eq_append_of_read? hread).symm.trans hr
    obtain ⟨d, tail, hspelling⟩ := List.exists_cons_of_ne_nil o.spelling_ne_nil
    rw [hspelling] at happend ⊢
    exact congrArg some (List.cons.inj happend).1
  obtain ⟨p, back', hread', hres⟩ := decides_behindFirst hc text l cs h hr (by simp)
  obtain ⟨rfl, rfl⟩ := Prod.mk.inj (Option.some.inj (hread.symm.trans hread'))
  rw [scanOperator?, advance?_ofLexer h hr]
  exact hres

/-- A character that starts no operator is taken alone. -/
theorem scanOperator?_of_none (h : InText text l) (hr : l.rest = c :: cs)
    (hread : Operator.read? l.rest = none) :
    (ofLexer text l).scanOperator? c = some (.illegal, .ofLexer text (l.past ⟨[c], cs⟩)) := by
  have hc : c ∉ firsts := by
    intro hc
    obtain ⟨p, back, hread', -⟩ := decides_behindFirst hc text l cs h hr (by simp)
    simp [hread] at hread'
  rw [scanOperator?, advance?_ofLexer h hr]
  exact behindFirst?_of_not_mem hc _

end Scanner

end Caret.Checked
