/-
**The options of a command line.**

Words are read from left to right, and the value of an option is looked into later than it is read.
Still, what comes out is simple: on a command line that is accepted an option has a value exactly if it is
named by one of the words in front of two dashes alone.  So the names alone tell in which way the cursor
is given, and a line without a column, or a column without a line, is not accepted.

Main definitions:

* `Caret.Opt.IsNamed` — an option is named on a command line;
* `Caret.Given.has`, `Caret.Reading.Has` — an option has a value, or its value is still looked for.

Main results:

* `Caret.Given.has_setOpt` — giving a value to an option gives none to the others;
* `Caret.Reading.has_add`, `Caret.Reading.has_foldlM` — what reading a word, and reading words, adds;
* `Caret.Arguments.exists_given` — the values behind the arguments are those of the options named;
* `Caret.Arguments.target_of_parse` — in which way the cursor is given, from the options named.
-/

import Mathlib.Data.List.Basic
import Caret.CommandLine.Reading

set_option relaxedAutoImplicit false
set_option autoImplicit false

namespace Caret

/-! ### Names -/

/-- A word names an option, with a value behind it or without. -/
def Opt.NamedBy (o : Opt) (word : String) : Prop :=
  ∃ value, WordForm.ofWord word = .long o.name value

/-- An option is named by one of the words in front of two dashes alone. -/
def Opt.IsNamed (o : Opt) (words : List String) : Prop :=
  ∃ word ∈ words.takeWhile fun word => WordForm.ofWord word != .separator, o.NamedBy word

theorem Opt.name_injective : Function.Injective Opt.name := by
  intro o p h
  exact Option.some.inj ((Opt.ofName?_eq_some_iff.2 rfl).symm.trans (Opt.ofName?_eq_some_iff.2 h))

/-- An option is named by the first word or by those behind it, unless the first is two dashes alone. -/
theorem Opt.isNamed_cons {o : Opt} {word : String} {words : List String} :
    o.IsNamed (word :: words) ↔
      WordForm.ofWord word ≠ .separator ∧ (o.NamedBy word ∨ o.IsNamed words) := by
  rw [IsNamed, List.takeWhile_cons]
  by_cases h : WordForm.ofWord word = .separator
  · simp [h]
  · simp [h, IsNamed]

/-! ### Values -/

/-- Where two steps succeed one after the other, both do. -/
theorem exists_of_bind {ε α β : Type} {x : Except ε α} {f : α → Except ε β} {b : β}
    (h : (x >>= f) = .ok b) : ∃ a, x = .ok a ∧ f a = .ok b := by
  cases x with
  | error e => exact absurd h (by simp [bind, Except.bind])
  | ok a => exact ⟨a, rfl, h⟩

/-- Does an option have a value? -/
def Given.has (g : Given) : Opt → Bool
  | .offset => g.offset.isSome
  | .line => g.line.isSome
  | .column => g.column.isSome
  | .format => g.preferences.format.isSome
  | .config => g.config.isSome
  | .maxInputBytes => g.preferences.maxInputBytes.isSome
  | .logFilter => g.preferences.logFilter.isSome

/-- What is filled in has a value then. -/
theorem Given.exists_of_fill {α β : Type} {o : Opt} {old : Option α} {new : Except ArgumentError α}
    {f : Option α → β} {b : β} (h : (do return f (← fill o old new)) = Except.ok b) :
    ∃ x, b = f (some x) := by
  obtain ⟨y, hy, hb⟩ := exists_of_bind h
  unfold fill at hy
  cases old with
  | some x => exact absurd hy (by simp)
  | none =>
      cases new with
      | error e => exact absurd hy (by simp [Except.map])
      | ok x =>
          obtain rfl := Except.ok.inj hy
          exact ⟨x, (Except.ok.inj hb).symm⟩

/-- Giving a value to an option gives none to the others. -/
theorem Given.has_setOpt {g g' : Given} {o : Opt} {word : String} (h : g.setOpt o word = .ok g')
    (p : Opt) : g'.has p = true ↔ g.has p = true ∨ o = p := by
  cases o <;> obtain ⟨x, rfl⟩ := exists_of_fill h <;> cases p <;> simp [has]

namespace Reading

/-- An option has a value, or its value is still looked for. -/
def Has (r : Reading) (o : Opt) : Prop :=
  r.given.has o = true ∨ ∃ value, r.pending = some (.option o value)

/-- Looking into what is pending makes no difference to which options have a value. -/
theorem has_settle {r : Reading} {g : Given} (h : r.settle = .ok g) (o : Opt) :
    g.has o = true ↔ r.Has o := by
  unfold settle at h
  unfold Has
  cases hpending : r.pending with
  | none =>
      rw [hpending] at h
      simp [Except.ok.inj h]
  | some pending =>
      rw [hpending] at h
      cases pending with
      | option p value =>
          cases value with
          | none => exact absurd h (by simp)
          | some word =>
              rw [Given.has_setOpt h]
              simp
      | file word =>
          obtain ⟨path, -, hg⟩ := exists_of_bind h
          obtain rfl := Except.ok.inj hg
          cases o <;> simp [Given.has]

/-- What comes next is done with the values that are looked into. -/
theorem exists_of_settled {r r' : Reading} {next : Given → Except ArgumentError Reading}
    (h : r.settled next = .ok r') : ∃ g, r.settle = .ok g ∧ next g = .ok r' := by
  unfold settled at h
  split at h
  · next hnext =>
      obtain rfl := Except.ok.inj h
      exact exists_of_bind hnext
  · exact absurd h (by simp)

theorem stop_ne_ok (r r' : Reading) (s : Stop) : r.stop s ≠ .ok r' := by
  unfold stop
  split <;> simp

theorem addFlag_ne_ok (r r' : Reading) (name : String) (value : Option String) (s : Stop) :
    r.addFlag name value s ≠ .ok r' := by
  unfold addFlag
  split
  · simp
  · exact r.stop_ne_ok r' s

/-- A source is no option. -/
theorem has_addFile {r r' : Reading} {word : String} (h : r.addFile word = .ok r') (o : Opt) :
    (r'.Has o ↔ r.Has o) ∧ r'.onlyFiles = r.onlyFiles := by
  unfold addFile at h
  split at h
  · exact absurd h (by simp)
  · obtain ⟨g, hg, hr⟩ := exists_of_settled h
    obtain rfl := Except.ok.inj hr
    refine ⟨?_, rfl⟩
    rw [← has_settle hg]
    simp [Has]

/-- An option that is read has a value, or its value is looked for. -/
theorem has_addOpt {r r' : Reading} {p : Opt} {value : Option String}
    (h : r.addOpt p value = .ok r') (o : Opt) :
    (r'.Has o ↔ r.Has o ∨ p = o) ∧ r'.onlyFiles = r.onlyFiles := by
  obtain ⟨g, hg, hr⟩ := exists_of_settled h
  rw [← has_settle hg]
  cases value with
  | none =>
      obtain rfl := Except.ok.inj hr
      exact ⟨by simp [Has], rfl⟩
  | some word =>
      obtain ⟨g', hset, hr⟩ := exists_of_bind hr
      obtain rfl := Except.ok.inj hr
      exact ⟨by simp [Has, Given.has_setOpt hset], rfl⟩

/-- What reading a word adds: the option that it names, unless every further word is a source. -/
theorem has_add {r r' : Reading} {word : String} (h : r.add word = .ok r') (o : Opt) :
    (r'.Has o ↔ r.Has o ∨ r.onlyFiles = false ∧ o.NamedBy word) ∧
      r'.onlyFiles = (r.onlyFiles || WordForm.ofWord word == .separator) := by
  unfold add at h
  unfold Opt.NamedBy
  cases hfiles : r.onlyFiles with
  | true =>
      rw [if_pos hfiles] at h
      obtain ⟨hhas, honly⟩ := has_addFile h o
      simp [hhas, honly, hfiles]
  | false =>
      rw [if_neg (by simp [hfiles])] at h
      split at h
      · next hform =>
          obtain rfl := Except.ok.inj h
          simp [Has, hform]
      · exact absurd h (r.stop_ne_ok r' _)
      · exact absurd h (r.stop_ne_ok r' _)
      · exact absurd h (by simp)
      · exact absurd h (r.addFlag_ne_ok r' _ _ _)
      · exact absurd h (r.addFlag_ne_ok r' _ _ _)
      · next name value _ _ hform =>
          split at h
          · next p hp =>
              obtain rfl := Opt.ofName?_eq_some_iff.1 hp
              obtain ⟨hhas, honly⟩ := has_addOpt h o
              simp [hhas, honly, hfiles, hform, Opt.name_injective.eq_iff]
          · exact absurd h (by simp)
      · next hform =>
          split at h
          · next p hpending =>
              obtain rfl := Except.ok.inj h
              simp [Has, hpending, hform, hfiles]
          · obtain ⟨hhas, honly⟩ := has_addFile h o
            simp [hhas, honly, hfiles, hform]

/-- What reading words adds: the options that they name, unless every further word is a source. -/
theorem has_foldlM {words : List String} {r r' : Reading} (h : words.foldlM add r = .ok r')
    (o : Opt) : r'.Has o ↔ r.Has o ∨ r.onlyFiles = false ∧ o.IsNamed words := by
  induction words generalizing r with
  | nil =>
      obtain rfl := Except.ok.inj h
      simp [Opt.IsNamed]
  | cons word words ih =>
      rw [List.foldlM_cons] at h
      obtain ⟨s, hs, h⟩ := exists_of_bind h
      obtain ⟨hhas, honly⟩ := has_add hs o
      have hform : o.NamedBy word → WordForm.ofWord word ≠ .separator := by
        rintro ⟨value, hvalue⟩
        simp [hvalue]
      rw [ih h, hhas, honly, Opt.isNamed_cons]
      simp only [Bool.or_eq_false_iff, beq_eq_false_iff_ne]
      tauto

end Reading

/-! ### Arguments -/

namespace Arguments

variable {words : List String} {a : Arguments}

/-- The values behind the arguments are those of the options named. -/
theorem exists_given (h : parse words = .ok a) :
    ∃ g : Given, g.arguments = .ok a ∧ ∀ o, g.has o = true ↔ Opt.IsNamed o words := by
  unfold parse at h
  split at h
  · exact absurd h (by simp)
  · next r hr =>
      split at h
      · next a' ha =>
          obtain rfl := Except.ok.inj h
          obtain ⟨g, hg, ha⟩ := exists_of_bind ha
          refine ⟨g, ha, fun o => ?_⟩
          rw [Reading.has_settle hg, Reading.has_foldlM hr]
          cases o <;> simp [Reading.start, Reading.Has, Given.has, Given.nothing, Preferences.nothing]
      · exact absurd h (by simp)

/-- In which way the cursor is given, from the options named: by an offset, by a line and a column, of
which none is named without the other, or not at all. -/
theorem target_of_parse (h : parse words = .ok a) :
    ((∃ n, a.target = .offset n) ↔ Opt.offset.IsNamed words) ∧
      ((∃ line column, a.target = .place line column) ↔ Opt.line.IsNamed words) ∧
      ((∃ line column, a.target = .place line column) ↔ Opt.column.IsNamed words) ∧
      (a.target = .ending ↔
        ∀ o ∈ [Opt.offset, Opt.line, Opt.column], ¬ o.IsNamed words) := by
  obtain ⟨g, hg, hhas⟩ := exists_given h
  have htarget : g.target = .ok a.target := by
    unfold Given.arguments at hg
    split at hg
    · next htarget _ =>
        obtain rfl := Except.ok.inj hg
        exact htarget
    · exact absurd hg (by simp)
    · exact absurd hg (by simp)
  simp only [← hhas, Given.has, List.mem_cons, List.not_mem_nil, or_false, forall_eq_or_imp, forall_eq]
  unfold Given.target at htarget
  split at htarget
  · next ho hl hc => simp [← Except.ok.inj htarget, ho, hl, hc]
  · next ho hl hc => simp [← Except.ok.inj htarget, ho, hl, hc]
  · next ho hl hc => simp [← Except.ok.inj htarget, ho, hl, hc]
  all_goals exact absurd htarget (by simp)

end Arguments

end Caret
