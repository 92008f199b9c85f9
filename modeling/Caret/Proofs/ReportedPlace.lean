/-
**The place that a report names.**

A run that is given an offset reports the line and column of the cursor.  Given this line and column
instead, a run finds the cursor where the characters end that start before the offset.  For an
offset between two characters, and for one past the end, that is the same cursor and the report is
the same.  For an offset inside of a character it is not: the context is the one in front of the
character, while the place that is reported lies behind it, so the two runs need not agree.

Main results:

* `Caret.Target.locate_ofOffset` — where a run with the reported line and column finds the cursor;
* `Caret.run_at_reported_place` — **at a boundary, and past the end, the report leads back to
  itself**;
* `Caret.classify_inside_character` — inside of a character it does not.
-/

import Caret.CommandLine.Run
import Caret.Proofs.Place
import Caret.Proofs.Seen

set_option relaxedAutoImplicit false
set_option autoImplicit false

namespace Caret

/-- A run with the line and column of an offset finds the cursor at the boundary behind it. -/
theorem Target.locate_ofOffset (source : String) (n : Nat) :
    Target.locate source (.place (Position.ofOffset source.toList n).line
      (Position.ofOffset source.toList n).column) = .ok (utf8Length (coverBytes n source.toList)) := by
  rw [Target.locate, offsetAt_ofOffset]
  rfl

/-- A boundary is where the characters end that start before it. -/
theorem utf8Length_coverBytes_of_isBoundary {cs : List Char} {n : Nat} (h : IsBoundary cs n) :
    utf8Length (coverBytes n cs) = n := by
  obtain ⟨front, hfront, rfl⟩ := h
  rw [coverBytes_of_isPrefix hfront]

/-- A source that is admitted is the text that was read. -/
theorem Settings.eq_of_admit {s : Settings} {source : Source} {text admitted : String}
    (h : s.admit source (.ok text) = .ok admitted) : admitted = text := by
  unfold Settings.admit at h
  simp only at h
  split at h
  · exact absurd h (by simp)
  · exact (Except.ok.inj h).symm

/-- What is reported on a source depends on where the cursor is found in it. -/
theorem Arguments.report_congr {a b : Arguments} {s : Settings} {text : String}
    (hsource : a.source = b.source) (hlocate : a.target.locate text = b.target.locate text) :
    a.report s (.ok text) = b.report s (.ok text) := by
  rw [report, report, hsource]
  cases hadmit : s.admit b.source (.ok text) with
  | error f => rfl
  | ok admitted =>
      obtain rfl := Settings.eq_of_admit hadmit
      change (a.target.locate admitted >>= _) = (b.target.locate admitted >>= _)
      rw [hlocate]

/-- A run that reads from what is there already: the settings come first, then the report. -/
theorem run_id (read : Source → Id (Except ReadError String)) (a : Arguments) :
    run read a =
      match Settings.gather a.preferences (a.config.map fun path => (path, read (.file path))) with
      | .error f => .error f
      | .ok s => a.report s (read a.source) := by
  unfold run
  cases a.config <;> rfl

/-- **At a boundary, and past the end, the report leads back to itself.**  A run that finds the cursor
at an offset reports its line and column, and the same run with this line and column in place of the
offset gives the same report. -/
theorem run_at_reported_place {read : Source → Id (Except ReadError String)} {a : Arguments}
    {text : String} {n : Nat} (hread : read a.source = .ok text) (htarget : a.target = .offset n)
    (hboundary : IsBoundary text.toList (min n (utf8Length text.toList))) :
    let reported := Position.ofOffset text.toList (min n (utf8Length text.toList))
    run read { a with target := .place reported.line reported.column } = run read a := by
  intro reported
  have hlocate : (Target.place reported.line reported.column).locate text
      = a.target.locate text := by
    rw [Target.locate_ofOffset, utf8Length_coverBytes_of_isBoundary hboundary, htarget, Target.locate]
  have hreport : ∀ s, ({ a with target := .place reported.line reported.column } : Arguments).report s
      (read a.source) = a.report s (read a.source) := by
    intro s
    rw [hread]
    exact Arguments.report_congr rfl hlocate
  rw [run_id, run_id]
  simp only [hreport]

/-- The report behind the period of a text whose first letter takes two bytes. -/
theorem run_at_reported_place_period :
    let read : Source → Id (Except ReadError String) := fun _ => .ok "é.x"
    let a : Arguments := ⟨.standardInput, .offset 3, none, .nothing⟩
    IsBoundary "é.x".toList (min 3 (utf8Length "é.x".toList)) ∧
      run read { a with target := .place 1 3 } = run read a := by
  intro read a
  have hboundary : IsBoundary "é.x".toList (min 3 (utf8Length "é.x".toList)) :=
    ⟨['é', '.'], by decide, by decide⟩
  have hreported : Position.ofOffset "é.x".toList (min 3 (utf8Length "é.x".toList)) = ⟨1, 3, 3⟩ := by
    decide
  have hrun := @run_at_reported_place read a "é.x" 3 rfl rfl hboundary
  rw [hreported] at hrun
  exact ⟨hboundary, hrun⟩

/-- Inside of a character the report does not lead back to itself: the cursor behind the first byte of
a letter of two is classified in front of it and reported behind it. -/
theorem classify_inside_character :
    let text := "é".toList
    let reported := Position.ofOffset text 1
    classify "é" 1 = .unknown "" ∧ reported = ⟨1, 2, 1⟩ ∧
      offsetAt text reported.line reported.column = .ok 2 ∧ classify "é" 2 = .unknown "é" := by
  have hlexemes : Lexeme.ofText "é".toList
      = [⟨⟨.ident, "é"⟩, ⟨1, 1, 0⟩, ⟨1, 2, 2⟩⟩, ⟨.lineEnd, ⟨1, 2, 2⟩, ⟨1, 2, 2⟩⟩] :=
    calc Lexeme.ofText "é".toList
        = _ :: Lexer.lexemes ⟨[], ⟨1, 2, 2⟩, true⟩ :=
          Lexer.lexemes_of_step (Lexer.step_of_next (by decide))
      _ = _ :: _ :: Lexer.lexemes ⟨[], ⟨1, 2, 2⟩, false⟩ :=
          congrArg _ (Lexer.lexemes_of_step (Lexer.step_of_next (by decide)))
      _ = _ := congrArg _ (congrArg _ (Lexer.lexemes_of_done ⟨rfl, Gap.nil⟩))
  have hlast : LastBefore (Lexeme.ofText "é".toList) 2 [] _ [_] :=
    ⟨hlexemes, by decide, by simp⟩
  refine ⟨classify_of_none (by decide) fun _ _ => Nat.zero_le _, by decide, by decide, ?_⟩
  rw [classify_of_lastBefore (by decide) hlast]
  decide

end Caret
