/-
**Walking back over an array of tokens.**

The tokens in front of the cursor are held in one array, and the walk back over them is a position in
it.  A step back takes one off the position, unless it is zero, and looking at a token is an access of
the array.  The loops that balance brackets, that follow an expression back to its beginning, and that
look for the keyword of an import declaration, only stop where a token stops them or at the first token
of all.  None of them fails or runs on for ever, because each turn of a loop moves the position towards
the first token, and it never leaves the array.

Main definitions:

* `Caret.Checked.Walk`, `Caret.Checked.Walk.ofTrail` — a position in an array of tokens, and the one
  that a trail is at;
* `Caret.Checked.Walk.balance?`, `Caret.Checked.Walk.toOpener?`,
  `Caret.Checked.Walk.toMatchingBracket?` — balancing brackets;
* `Caret.Checked.Walk.expression?` — the expression in front of the position, and where the walk over it
  ends;
* `Caret.Checked.Walk.typeName?` — the name in front of the enclosing brace, and the last token looked at;
* `Caret.Checked.Walk.inImport?` — do the tokens lead back to an import?

Main results:

* `Caret.Checked.Walk.balance?_ofTrail`, `Caret.Checked.Walk.toMatchingBracket?_ofTrail` — balancing
  ends, the count never falls below zero, and the bracket found is the right one;
* `Caret.Checked.Walk.expression?_ofTrail` — **the walk over an expression ends, where that over the trail
  does, and the range that is written out lies within the tokens**;
* `Caret.Checked.Walk.typeName?_ofTrail`, `Caret.Checked.Walk.inImport?_ofTrail` — the other walks.
-/

import Caret.Context
import Caret.Proofs.Checked.Cutting
import Caret.Proofs.EnclosingBrace
import Caret.Proofs.Moves

set_option relaxedAutoImplicit false
set_option autoImplicit false

namespace Caret.Checked

/-- A position in an array of tokens. -/
structure Walk where
  tokens : List Token
  index : Nat
  deriving DecidableEq, Repr

namespace Walk

/-! ### Looking and moving -/

/-- The token at the position. -/
def current? (w : Walk) : Option Token := w.tokens[w.index]?

/-- The kind of the token at the position. -/
def kind? (w : Walk) : Option Kind := do
  return (← w.current?).kind

/-- One token back, and whether there was one to go to. -/
def stepBack? (w : Walk) : Option (Bool × Walk) := do
  if w.index = 0 then return (false, w)
  else return (true, { w with index := ← sub? w.index 1 })

/-- One token back, and whether there is one of the kind `kind` there. -/
def stepBackTo? (kind : Kind) (w : Walk) : Option (Bool × Walk) := do
  let (moved, w) ← w.stepBack?
  if moved then return (decide ((← w.kind?) = kind), w) else return (false, w)

/-- One token back over a token of one of the `kinds`; nothing but a missing token is in the way. -/
def stepOver? (kinds : List Kind) (w : Walk) : Option (Bool × Walk) := do
  if (← w.kind?) ∈ kinds then w.stepBack? else return (true, w)

/-- The tokens from `start` up to `stop` written out. -/
def text? (start stop : Nat) (w : Walk) : Option String := do
  return Token.join (← range? start stop w.tokens)

/-! ### The walks -/

/-- Back to the token of kind `opener` that leaves `balance` closing brackets answered. -/
def balance? (opener closer : Kind) (balance : Nat) (w : Walk) : Option (Bool × Walk) := do
  if balance = 0 then return (true, w)
  else
    let (moved, w) ← w.stepBack?
    if moved then
      let kind ← w.kind?
      if kind = closer then w |>.balance? opener closer (balance + 1)
      else if kind = opener then w |>.balance? opener closer (← sub? balance 1)
      else w |>.balance? opener closer balance
    else return (false, w)
partial_fixpoint

/-- Back to the unanswered token of kind `opener`, unless the position is on one already. -/
def toOpener? (opener closer : Kind) (w : Walk) : Option (Bool × Walk) := do
  if (← w.kind?) = opener then return (true, w) else w.balance? opener closer 1

/-- From a closing bracket back to its opener. -/
def toMatchingBracket? (w : Walk) : Option (Bool × Walk) := do
  let closer ← w.kind?
  match closer.opener? with
  | some opener => w.toOpener? opener closer
  | none => return (false, w)

/-- The expression that ends in front of the token `stop`, as far as the token at the position, which
is of the kind `following` and belongs to it.  The walk ends on the first token that does not belong to
it.  At the first token of all everything belongs to it, and the walk ends there. -/
def expressionTo? (stop : Nat) (following : Kind) (w : Walk) : Option (String × Walk) := do
  let (moved, w) ← w.stepBack?
  if moved then
    match Step.ofPair? (← w.kind?) following with
    | none => return (← w.text? (w.index + 1) stop, w)
    | some .take => w |>.expressionTo? stop (← w.kind?)
    | some (.group _) =>
      let (_, w) ← w.toMatchingBracket?
      w |>.expressionTo? stop (← w.kind?)
  else return (← w.text? 0 stop, w)
partial_fixpoint

/-- The expression that ends in front of the position, and where the walk over it ends. -/
def expression? (w : Walk) : Option (String × Walk) := do
  w.expressionTo? w.index (← w.kind?)

/-- The name in front of a period in front of the position, and the last token looked at. -/
def package? (w : Walk) : Option (Option String × Walk) := do
  let (isPeriod, w) ← w.stepBackTo? (.op .period)
  if isPeriod then
    let (isName, w) ← w.stepBackTo? .ident
    if isName then return (some (← w.current?).literal, w) else return (none, w)
  else return (none, w)

/-- The name of a type in front of the position, and the last token looked at. -/
def qualified? (w : Walk) : Option (Option String × Walk) := do
  let (isName, w) ← w.stepBackTo? .ident
  if isName then
    let name := (← w.current?).literal
    let (package, w) ← w.package?
    match package with
    | some package => return (some (package ++ "." ++ name), w)
    | none => return (some name, w)
  else return (none, w)

/-- The name of the type in front of the brace that encloses the position, and the last token looked
at. -/
def typeName? (w : Walk) : Option (Option String × Walk) := do
  let (found, w) ← w.toOpener? (.op .lbrace) (.op .rbrace)
  if found then w.qualified? else return (none, w)

mutual

/-- Do the tokens in front of a string lead back to an import?  A name or a period may stand in
between. -/
def inImport? (w : Walk) : Option Bool := do
  let (moved, w) ← w.stepBack?
  if moved then
    let (named, w) ← w.stepOver? [.ident, .op .period]
    if named then w |>.atImport? else return false
  else return false
partial_fixpoint

/-- Does the token at the position lead back to an import?  It may be the keyword, the parenthesis
behind the keyword, or the end of an earlier path of the group. -/
def atImport? (w : Walk) : Option Bool := do
  if (← w.kind?) = .op .semicolon then
    let (isString, w) ← w.stepBackTo? .string
    if isString then w |>.inImport? else return false
  else
    let (grouped, w) ← w.stepOver? [.op .lparen]
    if grouped then return decide ((← w.kind?) = .keyword .import_) else return false
partial_fixpoint

end

/-! ### Where a trail is -/

/-- The walk at the position of a trail. -/
def ofTrail (t : Trail) : Walk := ⟨t.tokens, t.index⟩

variable {t s : Trail}

theorem current?_ofTrail (t : Trail) : (ofTrail t).current? = some t.current := t.getElem?_index

theorem kind?_ofTrail (t : Trail) : (ofTrail t).kind? = some t.kind := by
  rw [kind?, current?_ofTrail]
  rfl

/-- At the first token the walk stays. -/
theorem stepBack?_of_nil (h : t.before = []) : (ofTrail t).stepBack? = some (false, ofTrail t) := by
  have hindex : (ofTrail t).index = 0 := by simp [ofTrail, Trail.index, h]
  rw [stepBack?, if_pos hindex]
  rfl

/-- Anywhere else it goes one token back. -/
theorem exists_stepBack? {u : Token} {before : List Token} (h : t.before = u :: before) :
    ∃ s : Trail, s.tokens = t.tokens ∧ s.before = before ∧ s.current = u ∧
      (ofTrail t).stepBack? = some (true, ofTrail s) := by
  have hindex : (ofTrail t).index = before.length + 1 := by simp [ofTrail, Trail.index, h]
  have htokens : (t.land [] u before).tokens = t.tokens := Trail.tokens_land (by rw [h]; rfl)
  refine ⟨t.land [] u before, htokens, rfl, rfl, ?_⟩
  rw [stepBack?, if_neg (by omega), sub?_of_le (by omega), hindex]
  simp only [Option.bind_eq_bind, Option.bind_some, Nat.add_sub_cancel, ofTrail, htokens]
  rfl

/-- A step back goes where the trail goes. -/
theorem stepBack?_ofTrail (t : Trail) :
    (ofTrail t).stepBack? = some (t.stepBack?.isSome, ofTrail (t.back 1)) := by
  rcases hb : t.before with _ | ⟨u, before⟩
  · rw [stepBack?_of_nil hb]
    simp [Trail.stepBack?, Trail.back, hb]
  · obtain ⟨s, htokens, rfl, -, hstep⟩ := exists_stepBack? hb
    have hindex : (t.back 1).index = s.index := by
      rw [Trail.index_back, Trail.index, hb]
      rfl
    rw [hstep, Trail.eq_of_index ((Trail.tokens_back 1 t).trans htokens.symm) hindex]
    simp [Trail.stepBack?, hb]

/-- So does one that looks for a kind. -/
theorem stepBackTo?_ofTrail (kind : Kind) (t : Trail) : (ofTrail t).stepBackTo? kind
    = some (t.before.head?.any fun u => decide (u.kind = kind), ofTrail (t.back 1)) := by
  rw [stepBackTo?, stepBack?_ofTrail]
  rcases hb : t.before with _ | ⟨u, before⟩
  · simp [Trail.stepBack?, hb]
  · have hsome : t.stepBack? = some (t.land [] u before) := by rw [Trail.stepBack?, hb]
    simp [hsome, kind?_ofTrail, Trail.back, Trail.kind, Trail.land]

/-! ### Balancing -/

/-- Balancing ends: at the bracket that the search finds, or on the first token. -/
theorem balance?_ofTrail (opener closer : Kind) (depth : Nat) (t : Trail) :
    (ofTrail t).balance? opener closer (depth + 1)
      = some (match enclosure? opener closer depth t.before with
        | some e => (true, ⟨t.tokens, e.before.length⟩)
        | none => (false, ⟨t.tokens, 0⟩)) := by
  induction hb : t.before generalizing t depth with
  | nil =>
      rw [balance?, if_neg (Nat.succ_ne_zero depth), stepBack?_of_nil hb]
      simp [enclosure?, ofTrail, Trail.index, hb]
  | cons u before ih =>
      obtain ⟨s, htokens, rfl, rfl, hstep⟩ := exists_stepBack? hb
      rw [balance?, if_neg (Nat.succ_ne_zero depth), hstep]
      simp only [Option.bind_eq_bind, Option.bind_some, if_true, kind?_ofTrail]
      rw [← htokens]
      by_cases hc : s.kind = closer
      · rw [if_pos hc, ih (depth + 1) s rfl, enclosure?_closer hc]
        cases enclosure? opener closer (depth + 1) s.before <;> rfl
      · rw [if_neg hc]
        by_cases ho : s.kind = opener
        · have hne : opener ≠ closer := fun h => hc (ho.trans h)
          rw [if_pos ho, sub?_of_le (Nat.le_add_left 1 depth)]
          cases depth with
          | zero =>
              rw [Option.bind_some, balance?, if_pos rfl, enclosure?_opener_zero hne ho]
              rfl
          | succ depth =>
              simp only [Option.bind_some, Nat.add_sub_cancel]
              rw [ih depth s rfl, enclosure?_opener_succ hne ho]
              cases enclosure? opener closer depth s.before <;> rfl
        · rw [if_neg ho, ih depth s rfl, enclosure?_other hc ho]
          cases enclosure? opener closer depth s.before <;> rfl

theorem toOpener?_ofTrail (opener closer : Kind) (t : Trail) : (ofTrail t).toOpener? opener closer
    = some ((t.toOpener opener closer).1, ofTrail (t.toOpener opener closer).2) := by
  rw [toOpener?, kind?_ofTrail, Trail.toOpener]
  simp only [Option.bind_eq_bind, Option.bind_some]
  by_cases ho : t.kind = opener
  · rw [if_pos ho, if_pos ho]
    rfl
  · rw [if_neg ho, if_neg ho, balance?_ofTrail]
    cases he : enclosure? opener closer 0 t.before with
    | none => simp [ofTrail]
    | some e =>
        have htokens : (t.land e.inside e.opener e.before).tokens = t.tokens :=
          Trail.tokens_land (eq_of_enclosure? he)
        simp only [ofTrail, htokens]
        rfl

theorem toMatchingBracket?_ofTrail (t : Trail) : (ofTrail t).toMatchingBracket?
    = some (t.toMatchingBracket.1, ofTrail t.toMatchingBracket.2) := by
  rw [toMatchingBracket?, kind?_ofTrail, Trail.toMatchingBracket]
  simp only [Option.bind_eq_bind, Option.bind_some]
  cases t.kind.opener? with
  | none => rfl
  | some opener => exact toOpener?_ofTrail opener t.kind t

/-! ### Expressions -/

/-- A range that lies within the tokens is written out. -/
theorem text?_ofTrail {start stop : Nat} (hle : start ≤ stop) (hstop : stop ≤ t.tokens.length) :
    (ofTrail t).text? start stop = some (Token.join ((t.tokens.take stop).drop start)) := by
  have hstop' : stop ≤ (ofTrail t).tokens.length := hstop
  rw [text?, range?, sub?_of_le hle]
  simp only [Option.bind_eq_bind, Option.bind_some, if_pos hstop', List.drop_take]
  rfl

/-- One turn of the walk over an expression, where there is a token to go back to. -/
theorem exists_expressionTo? (stop : Nat) (following : Kind) {u : Token} {before : List Token}
    (h : t.before = u :: before) : ∃ s : Trail, s.tokens = t.tokens ∧ s.before = before ∧
      s.current = u ∧ t.index = s.index + 1 ∧ (ofTrail t).expressionTo? stop following
        = match Step.ofPair? s.kind following with
          | none => ((ofTrail s).text? (s.index + 1) stop).bind fun text => some (text, ofTrail s)
          | some .take => (ofTrail s).expressionTo? stop s.kind
          | some (.group _) =>
            (ofTrail s.toMatchingBracket.2).expressionTo? stop s.toMatchingBracket.2.kind := by
  obtain ⟨s, htokens, hbefore, hcurrent, hstep⟩ := exists_stepBack? h
  refine ⟨s, htokens, hbefore, hcurrent, by rw [Trail.index, h, Trail.index, hbefore]; rfl, ?_⟩
  rw [expressionTo?, hstep]
  simp only [Option.bind_eq_bind, Option.bind_some, if_true, kind?_ofTrail,
    toMatchingBracket?_ofTrail]
  rfl

/-- On the first token the walk ends, and everything is taken. -/
theorem expressionTo?_of_nil {stop : Nat} (following : Kind) (h : t.before = [])
    (hstop : stop ≤ t.tokens.length) : (ofTrail t).expressionTo? stop following
      = some (Token.join (t.tokens.take stop), ⟨t.tokens, 0⟩) := by
  have htext := text?_ofTrail (Nat.zero_le stop) hstop
  have hfirst : ofTrail t = ⟨t.tokens, 0⟩ := by rw [ofTrail, Trail.index, h, List.length_nil]
  rw [hfirst, List.drop_zero] at htext
  rw [expressionTo?, stepBack?_of_nil h, hfirst]
  simp only [Option.bind_eq_bind, Option.bind_some, Bool.false_eq_true, if_false, htext]
  rfl

/-- The walk over an expression ends, one token in front of it or on the first token, and the range that
is written out lies within the tokens. -/
theorem expressionTo?_ofTrail {stop : Nat} (following : Kind) (t : Trail) (hle : t.index ≤ stop)
    (hstop : stop ≤ t.tokens.length) : (ofTrail t).expressionTo? stop following = some
      (Token.join ((t.tokens.take stop).drop (operand following t.before).2.length),
        ⟨t.tokens, (operand following t.before).2.length - 1⟩) := by
  obtain ⟨before, hb⟩ : ∃ before, t.before = before := ⟨_, rfl⟩
  rw [hb]
  fun_induction operand following before generalizing t with
  | case1 following => exact expressionTo?_of_nil following hb hstop
  | case2 following u before hpair =>
      obtain ⟨s, htokens, rfl, rfl, hindex, hturn⟩ := exists_expressionTo? stop following hb
      rw [hturn, Trail.kind, hpair, ← htokens]
      have htext := text?_ofTrail (t := s) (hindex ▸ hle) (htokens ▸ hstop)
      exact congrArg (Option.bind · fun text => some (text, ofTrail s)) htext
  | case3 following u before hpair taken rest heq ih =>
      obtain ⟨s, htokens, rfl, rfl, hindex, hturn⟩ := exists_expressionTo? stop following hb
      have hrest := ih s (by omega) (htokens ▸ hstop) rfl
      rw [heq, htokens] at hrest
      rw [hturn, Trail.kind, hpair]
      exact hrest
  | case4 following u before opener hpair hnone =>
      obtain ⟨s, htokens, rfl, rfl, hindex, hturn⟩ := exists_expressionTo? stop following hb
      have hmatch := Trail.toMatchingBracket_of_group_none (t := s) hpair hnone
      have hbefore : s.rewind.before = [] := List.length_eq_zero_iff.1 s.index_rewind
      have hrewind : s.rewind.tokens = t.tokens := s.tokens_rewind.trans htokens
      -- a group without its opener leads to the first token
      have hrest := expressionTo?_of_nil s.rewind.kind hbefore (hrewind ▸ hstop)
      rw [hrewind] at hrest
      rw [hturn, Trail.kind, hpair, hmatch]
      exact hrest
  | case5 following u before opener hpair e he taken rest heq ih =>
      obtain ⟨s, htokens, rfl, rfl, hindex, hturn⟩ := exists_expressionTo? stop following hb
      have hmatch := Trail.toMatchingBracket_of_group_some (t := s) hpair he
      have hland : (s.land e.inside e.opener e.before).tokens = t.tokens :=
        (Trail.tokens_land (eq_of_enclosure? he)).trans htokens
      have hshorter : (s.land e.inside e.opener e.before).index < s.index := length_before_lt he
      have hrest := ih (s.land e.inside e.opener e.before) (by omega) (hland ▸ hstop) rfl
      rw [heq, hland] at hrest
      rw [hturn, Trail.kind, hpair, hmatch]
      exact hrest

/-- The expression in front of a position is found, and the walk over it ends where that over the trail
does. -/
theorem expression?_ofTrail (t : Trail) :
    (ofTrail t).expression? = some (t.expression.1, ofTrail t.expression.2) := by
  have hwhole : t.before.reverse = (operand t.kind t.before).2.reverse
      ++ (operand t.kind t.before).1.reverse := by
    rw [← List.reverse_append, append_operand]
  have hend : ofTrail t.expression.2 = ⟨t.tokens, (operand t.kind t.before).2.length - 1⟩ := by
    rw [ofTrail, Trail.tokens_expression, Trail.index_expression]
  rw [expression?, kind?_ofTrail, hend]
  refine (expressionTo?_ofTrail t.kind t le_rfl t.index_lt_length.le).trans ?_
  rw [Trail.take_index, hwhole, ← List.length_reverse, List.drop_left, Trail.expression_fst]

/-! ### Type names -/

/-- The name in front of a period at the end of some tokens, which stand nearest first. -/
def packageName? : List Token → Option String
  | ⟨.op .period, _⟩ :: ⟨.ident, package⟩ :: _ => some package
  | _ => none

/-- The number of tokens looked at to find it: one, and one more behind a period. -/
def packageReach : List Token → Nat
  | ⟨.op .period, _⟩ :: _ => 2
  | _ => 1

/-- A type name is a name, with the package in front of it if there is one. -/
theorem typeName?_ident (name : String) (before : List Token) :
    Caret.typeName? (⟨.ident, name⟩ :: before) = some (match packageName? before with
      | some package => package ++ "." ++ name
      | none => name) := by
  fun_cases packageName? before with
  | case1 => rfl
  | case2 _ hnot =>
      unfold Caret.typeName?
      split
      · next heq => exact absurd (List.cons.inj heq).2 (hnot _ _ _)
      · next heq => rw [(Token.mk.inj (List.cons.inj heq).1).2]
      · next hother => exact absurd rfl (hother _ _)

theorem typeNameReach_ident (name : String) (before : List Token) :
    typeNameReach (⟨.ident, name⟩ :: before) = 1 + packageReach before := by
  fun_cases packageReach before with
  | case1 => rfl
  | case2 _ hnot =>
      unfold typeNameReach
      split
      · next heq => exact absurd (List.cons.inj heq).2 (hnot _ _)
      · rfl
      · next hother => exact absurd rfl (hother _ _)

theorem package?_ofTrail (t : Trail) : (ofTrail t).package?
    = some (packageName? t.before, ofTrail (t.back (packageReach t.before))) := by
  rw [package?, stepBackTo?_ofTrail]
  have hback := Trail.before_back_one t
  rcases hb : t.before with _ | ⟨⟨kind, point⟩, before⟩
  · rfl
  · rw [hb, List.tail_cons] at hback
    by_cases hk : kind = .op .period
    · subst hk
      simp only [Option.bind_eq_bind, Option.bind_some, List.head?_cons, Option.any_some, decide_true,
        if_true, stepBackTo?_ofTrail, hback, packageReach]
      rcases before with _ | ⟨⟨kind, package⟩, before⟩
      · simp [packageName?, Trail.back_back]
      · by_cases hk : kind = .ident
        · subst hk
          have hname := Trail.current_back_one hback
          rw [Trail.back_back] at hname
          have hliteral : Token.literal ⟨.ident, package⟩ = package := Token.literal_of_isLiteral rfl
          simp [current?_ofTrail, hname, hliteral, packageName?, Trail.back_back]
        · simp [hk, packageName?, Trail.back_back]
    · simp [hk, packageName?, packageReach]

theorem qualified?_ofTrail (t : Trail) : (ofTrail t).qualified?
    = some (Caret.typeName? t.before, ofTrail (t.back (typeNameReach t.before))) := by
  rw [qualified?, stepBackTo?_ofTrail]
  have hback := Trail.before_back_one t
  rcases hb : t.before with _ | ⟨⟨kind, name⟩, before⟩
  · rfl
  · rw [hb, List.tail_cons] at hback
    by_cases hk : kind = .ident
    · subst hk
      simp only [Option.bind_eq_bind, Option.bind_some, List.head?_cons, Option.any_some, decide_true,
        if_true, current?_ofTrail, Trail.current_back_one hb, package?_ofTrail, hback, Trail.back_back,
        typeName?_ident, typeNameReach_ident]
      cases packageName? before <;> rfl
    · simp [hk, Caret.typeName?, typeNameReach]

/-- The type name is found, and the walk over it ends where that over the trail does. -/
theorem typeName?_ofTrail (t : Trail) :
    (ofTrail t).typeName? = some (t.typeName.1, ofTrail t.typeName.2) := by
  rw [typeName?, toOpener?_ofTrail, Trail.typeName, Trail.toOpenBrace]
  obtain ⟨found, s⟩ := t.toOpener (.op .lbrace) (.op .rbrace)
  cases found with
  | false => rfl
  | true => exact qualified?_ofTrail s

/-! ### Import declarations -/

theorem stepOver?_of_not_mem {kinds : List Kind} (h : t.kind ∉ kinds) :
    (ofTrail t).stepOver? kinds = some (true, ofTrail t) := by
  rw [stepOver?, kind?_ofTrail]
  simp only [Option.bind_eq_bind, Option.bind_some, if_neg h]
  rfl

theorem stepOver?_of_mem {kinds : List Kind} (h : t.kind ∈ kinds) :
    (ofTrail t).stepOver? kinds = (ofTrail t).stepBack? := by
  rw [stepOver?, kind?_ofTrail]
  simp only [Option.bind_eq_bind, Option.bind_some, if_pos h]

/-- One name or period may be passed over. -/
theorem opensImport_of_name {k : Kind} {kinds : List Kind} (h : k ∈ [Kind.ident, .op .period]) :
    opensImport true (k :: kinds) = opensImport false kinds := by
  rcases List.mem_pair.1 h with rfl | rfl <;> simp [opensImport]

theorem opensImport_of_not_name {k : Kind} {kinds : List Kind} (h : k ∉ [Kind.ident, .op .period]) :
    opensImport true (k :: kinds) = opensImport false (k :: kinds) := by
  unfold opensImport
  split <;> simp_all

/-- A semicolon has to follow an earlier path. -/
theorem opensImport_of_not_string {k : Kind} {kinds : List Kind} (h : k ≠ .string) :
    opensImport false (.op .semicolon :: k :: kinds) = false := by
  unfold opensImport
  split <;> simp_all

/-- A parenthesis has to follow the keyword. -/
theorem opensImport_lparen (k : Kind) (kinds : List Kind) :
    opensImport false (.op .lparen :: k :: kinds) = decide (k = .keyword .import_) := by
  unfold opensImport
  split <;> simp_all

/-- Behind any other kind there is an import only if it is the keyword. -/
theorem opensImport_of_other {k : Kind} {kinds : List Kind} (hsemi : k ≠ .op .semicolon)
    (hparen : k ≠ .op .lparen) :
    opensImport false (k :: kinds) = decide (k = .keyword .import_) := by
  unfold opensImport
  split <;> simp_all

/-- The token at the position leads back to an import if the kinds say so, provided the loop is right
in front of it. -/
theorem atImport?_ofTrail (t : Trail) (hloop : ∀ s : Trail, s.before.length < t.before.length →
      (ofTrail s).inImport? = some (opensImport true (s.before.map (·.kind)))) :
    (ofTrail t).atImport? = some (opensImport false (t.kind :: t.before.map (·.kind))) := by
  rw [atImport?, kind?_ofTrail]
  simp only [Option.bind_eq_bind, Option.bind_some]
  by_cases hsemi : t.kind = .op .semicolon
  · rw [if_pos hsemi, hsemi, stepBackTo?_ofTrail]
    have hback := Trail.before_back_one t
    rcases hb : t.before with _ | ⟨u, before⟩
    · rfl
    · rw [hb, List.tail_cons] at hback
      rw [List.map_cons]
      by_cases hk : u.kind = .string
      · have hloop' := hloop (t.back 1) (by simp [hback, hb])
        rw [hback] at hloop'
        simpa [hk, opensImport] using hloop'
      · rw [opensImport_of_not_string hk]
        simp [hk]
  · rw [if_neg hsemi]
    by_cases hparen : t.kind = .op .lparen
    · rw [stepOver?_of_mem (by simp [hparen]), hparen]
      rcases hb : t.before with _ | ⟨u, before⟩
      · rw [stepBack?_of_nil hb]
        rfl
      · obtain ⟨s, -, rfl, rfl, hstep⟩ := exists_stepBack? hb
        simp only [hstep, Option.bind_some, if_true, kind?_ofTrail, List.map_cons,
          opensImport_lparen]
        rfl
    · rw [stepOver?_of_not_mem (by simpa using hparen), opensImport_of_other hsemi hparen]
      simp only [Option.bind_some, if_true, kind?_ofTrail]
      rfl

/-- The loop over the tokens in front of a string ends, and it says what the kinds say. -/
theorem inImport?_ofTrail (t : Trail) :
    (ofTrail t).inImport? = some (opensImport true (t.before.map (·.kind))) := by
  induction hn : t.before.length using Nat.strongRecOn generalizing t with
  | ind n ih =>
      rw [inImport?]
      rcases hb : t.before with _ | ⟨u, before⟩
      · rw [stepBack?_of_nil hb]
        rfl
      · obtain ⟨s, -, rfl, rfl, hstep⟩ := exists_stepBack? hb
        have hlength : s.before.length < n := by rw [← hn, hb]; exact Nat.lt_succ_self _
        rw [hstep]
        simp only [Option.bind_eq_bind, Option.bind_some, if_true]
        by_cases hname : s.current.kind ∈ [Kind.ident, .op .period]
        · rw [stepOver?_of_mem hname, List.map_cons, opensImport_of_name hname]
          rcases hb' : s.before with _ | ⟨v, before⟩
          · rw [stepBack?_of_nil hb']
            rfl
          · obtain ⟨r, -, rfl, rfl, hstep⟩ := exists_stepBack? hb'
            rw [hstep]
            refine atImport?_ofTrail r fun q hq => ih _ ?_ q rfl
            rw [hb', List.length_cons] at hlength
            omega
        · rw [stepOver?_of_not_mem hname, List.map_cons, opensImport_of_not_name hname]
          exact atImport?_ofTrail s fun q hq => ih _ (hq.trans hlength) q rfl

end Walk

end Caret.Checked
