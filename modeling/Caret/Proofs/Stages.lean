/-
**The stages of a run.**

A run can fail in five stages: with the configuration file, with the limit that results, with reading the
source, with its size, and with the cursor.  What each stage can fail with is said here on its own, as if
the others were not there, from what stands on the command line and from the bytes that can be read.  A
run then fails with what its first failing stage fails with, whatever comes later, and it succeeds if no
stage fails.

Main definitions:

* `Caret.Contents` — the bytes that a run can read, or why it cannot;
* `Caret.Arguments.limit`, `Caret.Arguments.format` — what the command line and the configuration file say
  together;
* `Caret.Target.Means` — where the cursor is in a text;
* `Caret.Stage`, `Caret.Arguments.Fails` — the stages, and what each of them can fail with;
* `Caret.Arguments.FailsFirst`, `Caret.Arguments.InOrder` — a failure with no failing stage in front of it,
  and nothing to fail with.

Main results:

* `Caret.Contents.text_eq_ok_iff`, `Caret.Contents.text_eq_error_iff` — texts are read from their UTF-8;
* `Caret.runIn_eq` — a run in a directory tree is a run with what can be read there;
* `Caret.Target.Means.locate_eq` — the cursor is found where it is;
* `Caret.Arguments.run_of_failsFirst` — a run fails with what its first failing stage fails with;
* `Caret.Arguments.exists_run_eq_ok` — if no stage fails, neither does the run;
* `Caret.Arguments.run_by_stages` — **a run is decided by its first failing stage**.
-/

import Mathlib.Order.WellFounded
import Caret.Proofs.Given
import Caret.Proofs.ReportedPlace

set_option relaxedAutoImplicit false
set_option autoImplicit false

namespace Caret

/-! ### What can be read -/

theorem fromUTF8?_eq_some_iff {bytes : ByteArray} {text : String} :
    String.fromUTF8? bytes = some text ↔ bytes = text.toUTF8 := by
  unfold String.fromUTF8?
  constructor
  · intro h
    split at h
    · exact congrArg String.toUTF8 (Option.some.inj h)
    · exact absurd h (by simp)
  · rintro rfl
    exact dif_pos text.isValidUTF8

/-- Bytes that are no UTF-8 have no text. -/
theorem readText_eq_error_iff {bytes : ByteArray} {e : ReadError} :
    readText bytes = .error e ↔ e = .notText ∧ ∀ text : String, bytes ≠ text.toUTF8 := by
  simp only [readText, ne_eq, ← fromUTF8?_eq_some_iff]
  cases String.fromUTF8? bytes <;> simp [eq_comm]

/-- Bytes are read as the text that they are the UTF-8 of. -/
theorem readText_eq_ok_iff {bytes : ByteArray} {text : String} :
    readText bytes = .ok text ↔ bytes = text.toUTF8 := by
  simp only [readText, ← fromUTF8?_eq_some_iff]
  cases String.fromUTF8? bytes <;> simp

/-- What is in the files and in the standard input: bytes, or the reason why they cannot be read. -/
abbrev Contents := Source → Except ReadError ByteArray

namespace Contents

variable {c : Contents} {s : Source}

/-- The text of a source. -/
def text (c : Contents) (s : Source) : Id (Except ReadError String) :=
  match c s with
  | .ok bytes => readText bytes
  | .error e => .error e

/-- Why a source has no text: the system does not read it, or its bytes are no UTF-8. -/
inductive Unreadable (c : Contents) (s : Source) : ReadError → Prop where
  | system {e : ReadError} (h : c s = .error e) : Unreadable c s e
  | notText {bytes : ByteArray} (h : c s = .ok bytes) (hbytes : ∀ text : String, bytes ≠ text.toUTF8) :
      Unreadable c s .notText

/-- A source has a text if its bytes are the text in UTF-8. -/
theorem text_eq_ok_iff {text : String} : c.text s = .ok text ↔ c s = .ok text.toUTF8 := by
  cases hs : c s with
  | error e => simp [Contents.text, hs]
  | ok bytes =>
      simp only [Contents.text, hs, Except.ok.injEq]
      exact readText_eq_ok_iff

/-- A source has no text if it is unreadable. -/
theorem text_eq_error_iff {e : ReadError} : c.text s = .error e ↔ c.Unreadable s e := by
  constructor
  · intro h
    cases hs : c s with
    | error e' =>
        simp only [Contents.text, hs] at h
        obtain rfl := Except.error.inj h
        exact .system hs
    | ok bytes =>
        simp only [Contents.text, hs] at h
        obtain ⟨rfl, hbytes⟩ := readText_eq_error_iff.1 h
        exact .notText hs hbytes
  · rintro (h | ⟨h, hbytes⟩)
    · simp only [Contents.text, h]
    · simp only [Contents.text, h]
      exact readText_eq_error_iff.2 ⟨rfl, hbytes⟩

/-- A source has a text, or it is unreadable. -/
theorem text_or_unreadable (c : Contents) (s : Source) :
    (∃ text : String, c s = .ok text.toUTF8) ∨ ∃ e, c.Unreadable s e := by
  cases h : c.text s with
  | ok text => exact Or.inl ⟨text, text_eq_ok_iff.1 h⟩
  | error e => exact Or.inr ⟨e, text_eq_error_iff.1 h⟩

/-- What has a text is not unreadable. -/
theorem not_unreadable {text : String} {e : ReadError} (h : c s = .ok text.toUTF8) :
    ¬ c.Unreadable s e := by
  intro he
  rw [← text_eq_ok_iff, text_eq_error_iff.2 he] at h
  exact absurd h (by simp)

/-- A source has only one text. -/
theorem text_inj {text text' : String} (h : c s = .ok text.toUTF8) (h' : c s = .ok text'.toUTF8) :
    text = text' :=
  Except.ok.inj ((text_eq_ok_iff.2 h).symm.trans (text_eq_ok_iff.2 h'))

/-- What can be read in a directory tree. -/
def ofDirectory (d : Directory) (standardInput : ByteArray) : Contents
  | .standardInput => .ok standardInput
  | .file path => follow (if path.toList.head? = some '/' then [] else [d]) (pathNames path)

end Contents

/-- A run in a directory tree is a run with what can be read there. -/
theorem runIn_eq (d : Directory) (standardInput : ByteArray) (a : Arguments) :
    runIn d standardInput a = run (Contents.ofDirectory d standardInput).text a := by
  have hread : (fun s => match s with
      | .standardInput => pure (readText standardInput)
      | .file path => pure (d.read path) : Source → Id (Except ReadError String))
      = (Contents.ofDirectory d standardInput).text := by
    funext s
    cases s with
    | standardInput => rfl
    | file path =>
        simp only [Contents.text, Contents.ofDirectory, Directory.read]
        cases follow _ (pathNames path) <;> rfl
  rw [← hread]
  rfl

/-- The bytes of a text are those of its characters. -/
theorem utf8Length_toList (text : String) : utf8Length text.toList = text.toUTF8.size := by
  change utf8Length text.toList = text.utf8ByteSize
  induction text using String.push_induction with
  | empty => rfl
  | push text c ih =>
      rw [String.toList_push, utf8Length_append, ih, String.utf8ByteSize_push]
      rfl

/-! ### The cursor -/

/-- Where the cursor is in a text: at the end, at an offset or at the end if this comes first, or at a
column of a line or at the end of the line if this comes first. -/
inductive Target.Means (text : String) : Target → Nat → Prop where
  | ending : Means text .ending text.toUTF8.size
  | offset (n : Nat) : Means text (.offset n) (min n text.toUTF8.size)
  | place {line column : Nat} {above content below : List Char}
      (hline : IsLine text.toList line above content below) (hcolumn : 0 < column) :
      Means text (.place line column) (utf8Length (above ++ content.take (column - 1)))

/-- The cursor is found where it is. -/
theorem Target.Means.locate_eq {text : String} {t : Target} {n : Nat} (h : t.Means text n) :
    t.locate text = .ok n := by
  cases h with
  | ending => rw [locate, utf8Length_toList]
  | offset n => rw [locate, utf8Length_toList]
  | place hline hcolumn =>
      rw [locate, offsetAt_of_isLine hline hcolumn]
      rfl

/-! ### The stages -/

/-- The stages of a run. -/
inductive Stage where
  | config | limit | source | size | cursor
  deriving DecidableEq, Repr

/-- The stages in their order. -/
def Stage.number : Stage → Nat
  | config => 1
  | limit => 2
  | source => 3
  | size => 4
  | cursor => 5

instance : LT Stage := ⟨fun s t => s.number < t.number⟩

instance : DecidableLT Stage := fun s t => inferInstanceAs (Decidable (s.number < t.number))

namespace Arguments

variable {a : Arguments} {c : Contents} {f : Failure}

/-- What the configuration file says: nothing if there is none, or none that is valid. -/
def filePreferences (a : Arguments) (c : Contents) : Preferences :=
  match a.config.map fun path => c.text (.file path) with
  | some (.ok text) => (Preferences.parse? text).getD .nothing
  | _ => .nothing

/-- The longest source that is accepted, in bytes. -/
def limit (a : Arguments) (c : Contents) : Nat :=
  (a.preferences.maxInputBytes.or (a.filePreferences c).maxInputBytes).getD 8388608

/-- How the report is written. -/
def format (a : Arguments) (c : Contents) : Report.Format :=
  (a.preferences.format.or (a.filePreferences c).format).getD .text

/-- What a stage can fail with, as if there were no other. -/
inductive Fails (a : Arguments) (c : Contents) : Stage → Failure → Prop where
  | configUnreadable {path : String} {e : ReadError} (hconfig : a.config = some path)
      (hread : c.Unreadable (.file path) e) : Fails a c .config (.configUnreadable path e)
  | configInvalid {path text : String} (hconfig : a.config = some path)
      (hread : c (.file path) = .ok text.toUTF8) (hparse : Preferences.parse? text = none) :
      Fails a c .config (.configInvalid path)
  | zeroLimit (hlimit : a.limit c = 0) : Fails a c .limit (.settings .zeroLimit)
  | sourceUnreadable {e : ReadError} (hread : c.Unreadable a.source e) :
      Fails a c .source (.sourceUnreadable a.source e)
  | tooLong {text : String} (hread : c a.source = .ok text.toUTF8)
      (hsize : a.limit c < text.toUTF8.size) : Fails a c .size (.tooLong text.toUTF8.size (a.limit c))
  | notOneBased {line column : Nat} (htarget : a.target = .place line column)
      (hzero : line = 0 ∨ column = 0) :
      Fails a c .cursor (.noSuchPlace line column (.notOneBased line column))
  | pastLastLine {line column : Nat} {text : String} (htarget : a.target = .place line column)
      (hline : 0 < line) (hcolumn : 0 < column) (hread : c a.source = .ok text.toUTF8)
      (hpast : text.toList.count '\n' + 1 < line) :
      Fails a c .cursor
        (.noSuchPlace line column (.pastLastLine line (text.toList.count '\n' + 1)))

/-- A stage fails, and no stage in front of it does. -/
def FailsFirst (a : Arguments) (c : Contents) (f : Failure) : Prop :=
  ∃ stage, a.Fails c stage f ∧ ∀ earlier < stage, ∀ g, ¬ a.Fails c earlier g

/-- All is in order: the configuration file, if there is one, is UTF-8 and valid, the limit is not zero,
the source is UTF-8 and no longer than the limit, and a line and a column count from one, the line up to
the number of lines. -/
structure InOrder (a : Arguments) (c : Contents) : Prop where
  config : ∀ path, a.config = some path → ∃ (text : String) (preferences : Preferences),
    c (.file path) = .ok text.toUTF8 ∧ Preferences.parse? text = some preferences
  limit : a.limit c ≠ 0
  source : ∃ text : String, c a.source = .ok text.toUTF8 ∧ text.toUTF8.size ≤ a.limit c ∧
    ∀ line column, a.target = .place line column →
      1 ≤ line ∧ 1 ≤ column ∧ line ≤ 1 + text.toList.count '\n'

/-- A configuration file that is valid UTF-8 and a valid configuration is no fault. -/
theorem not_fails_config (h : ∀ path, a.config = some path → ∃ (text : String)
    (preferences : Preferences), c (.file path) = .ok text.toUTF8 ∧
      Preferences.parse? text = some preferences) : ¬ a.Fails c .config f := by
  intro hfails
  cases hfails with
  | configUnreadable hpath hunreadable =>
      obtain ⟨text, preferences, hread, -⟩ := h _ hpath
      exact Contents.not_unreadable hread hunreadable
  | configInvalid hpath hread' hnone =>
      obtain ⟨text, preferences, hread, hsome⟩ := h _ hpath
      obtain rfl := Contents.text_inj hread' hread
      rw [hnone] at hsome
      exact absurd hsome (by simp)

/-- It says what it is read as. -/
theorem filePreferences_of_parse {path text : String} {preferences : Preferences}
    (hconfig : a.config = some path) (hread : c (.file path) = .ok text.toUTF8)
    (hparse : Preferences.parse? text = some preferences) : a.filePreferences c = preferences := by
  simp only [filePreferences, hconfig, Option.map_some, Contents.text_eq_ok_iff.2 hread, hparse,
    Option.getD_some]

/-- If a stage fails, one of them is the first. -/
theorem exists_failsFirst {stage : Stage} (h : a.Fails c stage f) : ∃ g, a.FailsFirst c g := by
  obtain ⟨first, ⟨g, hg⟩, hfirst⟩ :=
    (measure Stage.number).wf.has_min {stage | ∃ f, a.Fails c stage f} ⟨stage, f, h⟩
  exact ⟨g, first, hg, fun earlier hlt f hf => hfirst earlier ⟨f, hf⟩ hlt⟩

/-! ### The settings -/

/-- The settings of a run, from what can be read. -/
def settings (a : Arguments) (c : Contents) : Except Failure Settings :=
  Settings.gather a.preferences (a.config.map fun path => (path, c.text (.file path)))

theorem run_eq (a : Arguments) (c : Contents) :
    run c.text a =
      match a.settings c with
      | .error f => .error f
      | .ok s => a.report s (c.text a.source) :=
  run_id c.text a

theorem settings_of_fails (h : a.Fails c .config f) : a.settings c = .error f := by
  unfold settings Settings.gather
  cases h with
  | configUnreadable hconfig hread =>
      simp only [hconfig, Option.map_some, Contents.text_eq_error_iff.2 hread]
  | configInvalid hconfig hread hparse =>
      simp only [hconfig, Option.map_some, Contents.text_eq_ok_iff.2 hread, hparse]

/-- Without a fault in the configuration file, the command line and the file make the settings. -/
theorem settings_of_not_fails (h : ∀ f, ¬ a.Fails c .config f) :
    a.settings c
      = (Settings.resolve (a.preferences.orElse (a.filePreferences c))).mapError .settings := by
  unfold settings Settings.gather filePreferences
  cases hconfig : a.config with
  | none =>
      have hnothing : a.preferences.orElse .nothing = a.preferences := by
        simp [Preferences.orElse, Preferences.nothing]
      simp only [Option.map_none, hnothing]
  | some path =>
      simp only [Option.map_some]
      cases htext : c.text (.file path) with
      | error e => exact absurd (.configUnreadable hconfig (Contents.text_eq_error_iff.1 htext)) (h _)
      | ok text =>
          cases hparse : Preferences.parse? text with
          | none =>
              exact absurd (.configInvalid hconfig (Contents.text_eq_ok_iff.1 htext) hparse) (h _)
          | some file => simp only [hparse, Option.getD_some]

/-- A limit of zero bytes makes no settings. -/
theorem settings_of_zero (h : ∀ f, ¬ a.Fails c .config f) (hlimit : a.limit c = 0) :
    a.settings c = .error (.settings .zeroLimit) := by
  rw [settings_of_not_fails h, Settings.resolve]
  exact congrArg (Except.mapError Failure.settings) (if_pos hlimit)

/-- Any other limit does, and these are the limit and the format. -/
theorem exists_settings (h : ∀ f, ¬ a.Fails c .config f) (hlimit : a.limit c ≠ 0) :
    ∃ filter, a.settings c = .ok ⟨a.limit c, a.format c, filter⟩ := by
  rw [settings_of_not_fails h, Settings.resolve]
  exact ⟨_, congrArg (Except.mapError Failure.settings) (if_neg hlimit)⟩

/-! ### The report -/

section

variable {s : Settings} {text : String}

/-- An unreadable source is not reported on. -/
theorem report_of_unreadable {e : ReadError} (hread : c.Unreadable a.source e) :
    a.report s (c.text a.source) = .error (.sourceUnreadable a.source e) := by
  rw [Contents.text_eq_error_iff.2 hread]
  rfl

/-- Nor is one that is too long. -/
theorem report_of_tooLong (hread : c a.source = .ok text.toUTF8)
    (hsize : s.maxInputBytes < text.toUTF8.size) :
    a.report s (c.text a.source) = .error (.tooLong text.toUTF8.size s.maxInputBytes) := by
  rw [Contents.text_eq_ok_iff.2 hread, report, Settings.admit, utf8Length_toList, if_pos hsize]
  rfl

/-- Any other source is reported on if the cursor is found. -/
theorem report_of_le (hread : c a.source = .ok text.toUTF8)
    (hsize : text.toUTF8.size ≤ s.maxInputBytes) :
    a.report s (c.text a.source)
      = (a.target.locate text).map fun n => (Report.ofCursor text n).render s.format := by
  rw [Contents.text_eq_ok_iff.2 hread, report, Settings.admit, utf8Length_toList,
    if_neg (Nat.not_lt.2 hsize)]
  rfl

/-- The cursor is not found where there is no such place. -/
theorem locate_of_fails (hread : c a.source = .ok text.toUTF8) (h : a.Fails c .cursor f) :
    a.target.locate text = .error f := by
  cases h with
  | notOneBased htarget hzero =>
      rw [htarget, Target.locate, offsetAt, if_pos hzero]
      rfl
  | pastLastLine htarget hline hcolumn hread' hpast =>
      obtain rfl := Contents.text_inj hread' hread
      rw [htarget, Target.locate, offsetAt_past_last hline hcolumn hpast]
      rfl

/-- The cursor is found where there is such a place. -/
theorem exists_means (hread : c a.source = .ok text.toUTF8) (h : ∀ f, ¬ a.Fails c .cursor f) :
    ∃ n, a.target.Means text n := by
  cases htarget : a.target with
  | ending => exact ⟨_, .ending⟩
  | offset n => exact ⟨_, .offset n⟩
  | place line column =>
      have hzero : ¬ (line = 0 ∨ column = 0) := fun hzero => h _ (.notOneBased htarget hzero)
      have hpast : ¬ text.toList.count '\n' + 1 < line := fun hpast =>
        h _ (.pastLastLine htarget (by omega) (by omega) hread hpast)
      obtain ⟨above, content, below, hline⟩ :=
        @exists_isLine text.toList line (by omega) (by omega)
      exact ⟨_, .place hline (by omega)⟩

end

/-! ### The run -/

/-- With a configuration file and a limit in order, a run comes to the source. -/
theorem exists_run_eq_report (hconfig : ∀ f, ¬ a.Fails c .config f)
    (hlimit : ∀ f, ¬ a.Fails c .limit f) :
    ∃ s : Settings, s.maxInputBytes = a.limit c ∧ s.format = a.format c ∧
      run c.text a = a.report s (c.text a.source) := by
  have hpos : a.limit c ≠ 0 := fun hzero => hlimit _ (.zeroLimit hzero)
  obtain ⟨filter, hs⟩ := exists_settings hconfig hpos
  exact ⟨_, rfl, rfl, by rw [run_eq, hs]⟩

/-- With a source and its size in order, there is a text. -/
theorem exists_text (hsource : ∀ f, ¬ a.Fails c .source f) (hsize : ∀ f, ¬ a.Fails c .size f) :
    ∃ text : String, c a.source = .ok text.toUTF8 ∧ text.toUTF8.size ≤ a.limit c := by
  have hreadable : ¬ ∃ e, c.Unreadable a.source e := fun ⟨e, he⟩ => hsource _ (.sourceUnreadable he)
  obtain ⟨text, hread⟩ := (c.text_or_unreadable a.source).resolve_right hreadable
  exact ⟨text, hread, Nat.not_lt.1 fun hlt => hsize _ (.tooLong hread hlt)⟩

/-- A run fails with what its first failing stage fails with. -/
theorem run_of_failsFirst (h : a.FailsFirst c f) : run c.text a = .error f := by
  obtain ⟨stage, h, hearlier⟩ := h
  cases stage with
  | config => rw [run_eq, settings_of_fails h]
  | limit =>
      cases h with
      | zeroLimit hzero => rw [run_eq, settings_of_zero (hearlier .config (by decide)) hzero]
  | source =>
      obtain ⟨s, -, -, hrun⟩ :=
        exists_run_eq_report (hearlier .config (by decide)) (hearlier .limit (by decide))
      cases h with
      | sourceUnreadable hread => rw [hrun, report_of_unreadable hread]
  | size =>
      obtain ⟨s, hs, -, hrun⟩ :=
        exists_run_eq_report (hearlier .config (by decide)) (hearlier .limit (by decide))
      cases h with
      | tooLong hread hsize => rw [hrun, report_of_tooLong hread (hs ▸ hsize), hs]
  | cursor =>
      obtain ⟨s, hs, -, hrun⟩ :=
        exists_run_eq_report (hearlier .config (by decide)) (hearlier .limit (by decide))
      obtain ⟨text, hread, hsize⟩ :=
        exists_text (hearlier .source (by decide)) (hearlier .size (by decide))
      rw [hrun, report_of_le hread (hs ▸ hsize), locate_of_fails hread h]
      rfl

/-- If no stage fails, neither does the run, and it reports on the cursor in the source. -/
theorem exists_run_eq_ok (h : ∀ stage f, ¬ a.Fails c stage f) :
    ∃ text n, c a.source = .ok text.toUTF8 ∧ a.target.Means text n ∧
      run c.text a = .ok ((Report.ofCursor text n).render (a.format c)) := by
  obtain ⟨s, hs, hformat, hrun⟩ := exists_run_eq_report (h .config) (h .limit)
  obtain ⟨text, hread, hsize⟩ := exists_text (h .source) (h .size)
  obtain ⟨n, hn⟩ := exists_means hread (h .cursor)
  refine ⟨text, n, hread, hn, ?_⟩
  rw [hrun, report_of_le hread (hs ▸ hsize), hn.locate_eq, hformat]
  rfl

/-- No stage fails exactly if all is in order. -/
theorem inOrder_iff : a.InOrder c ↔ ∀ stage f, ¬ a.Fails c stage f := by
  constructor
  · rintro ⟨hconfig, hlimit, text, hread, hsize, hplace⟩ stage f hfails
    cases hfails with
    | configUnreadable hpath hread' =>
        exact not_fails_config hconfig (.configUnreadable hpath hread')
    | configInvalid hpath hread' hparse =>
        exact not_fails_config hconfig (.configInvalid hpath hread' hparse)
    | zeroLimit hzero => exact hlimit hzero
    | sourceUnreadable hunreadable => exact Contents.not_unreadable hread hunreadable
    | tooLong hread' hlong =>
        obtain rfl := Contents.text_inj hread' hread
        omega
    | notOneBased htarget hzero =>
        have := hplace _ _ htarget
        omega
    | pastLastLine htarget hline hcolumn hread' hpast =>
        obtain rfl := Contents.text_inj hread' hread
        have := hplace _ _ htarget
        omega
  · intro h
    obtain ⟨text, hread, hsize⟩ := exists_text (h .source) (h .size)
    refine ⟨fun path hpath => ?_, fun hzero => h _ _ (.zeroLimit hzero), text, hread, hsize, ?_⟩
    · rcases c.text_or_unreadable (.file path) with ⟨config, hconfig⟩ | ⟨e, he⟩
      · cases hparse : Preferences.parse? config with
        | none => exact absurd (.configInvalid hpath hconfig hparse) (h _ _)
        | some preferences => exact ⟨config, preferences, hconfig, hparse⟩
      · exact absurd (.configUnreadable hpath he) (h _ _)
    · intro line column htarget
      have hzero : ¬ (line = 0 ∨ column = 0) := fun hzero => h _ _ (.notOneBased htarget hzero)
      have hpast : ¬ text.toList.count '\n' + 1 < line := fun hpast =>
        h _ _ (.pastLastLine htarget (by omega) (by omega) hread hpast)
      omega

/-- **A run is decided by its first failing stage.**  For every command line that is accepted and whatever
can be read, a run fails with what its first failing stage fails with, whatever would fail later, and it
succeeds exactly if all is in order.  Its report is then that on the cursor in the source, in the format
that the command line, else the configuration file, else the default says.

The cursor is at the end of the source exactly if none of the options for it is named.  A line without a
column, or a column without a line, does not come to this, nor to anything else. -/
theorem run_by_stages {words : List String} (hparse : parse words = .ok a) (c : Contents) :
    (∀ f, run c.text a = .error f ↔ a.FailsFirst c f) ∧
    ((∃ report, run c.text a = .ok report) ↔ a.InOrder c) ∧
    (∀ report, run c.text a = .ok report → ∃ (text : String) (n : Nat),
      c a.source = .ok text.toUTF8 ∧ a.target.Means text n ∧
      report = (⟨.ofOffset text.toList n, classify text n⟩ : Report).render (a.format c)) ∧
    ((∃ n, a.target = .offset n) ↔ Opt.offset.IsNamed words) ∧
    ((∃ line column, a.target = .place line column) ↔ Opt.line.IsNamed words) ∧
    ((∃ line column, a.target = .place line column) ↔ Opt.column.IsNamed words) ∧
    (a.target = .ending ↔ ∀ o ∈ [Opt.offset, Opt.line, Opt.column], ¬ o.IsNamed words) := by
  have hdecided : (∀ stage f, ¬ a.Fails c stage f) ∨ ∃ f, a.FailsFirst c f := by
    by_cases h : ∃ stage f, a.Fails c stage f
    · obtain ⟨stage, f, h⟩ := h
      exact Or.inr (exists_failsFirst h)
    · exact Or.inl fun stage f hf => h ⟨stage, f, hf⟩
  rw [inOrder_iff]
  rcases hdecided with hnone | ⟨f, hf⟩
  · -- no stage fails
    obtain ⟨text, n, hread, hn, hrun⟩ := exists_run_eq_ok hnone
    refine ⟨fun f => ?_, iff_of_true ⟨_, hrun⟩ hnone, fun report hreport => ?_,
      target_of_parse hparse⟩
    · rw [hrun]
      exact iff_of_false (by simp) fun ⟨stage, hf, _⟩ => hnone stage f hf
    · rw [hrun] at hreport
      exact ⟨text, n, hread, hn, (Except.ok.inj hreport).symm⟩
  · -- the run fails like the first stage that does
    have hrun := run_of_failsFirst hf
    refine ⟨fun g => ⟨fun hg => ?_, run_of_failsFirst⟩, ?_, fun report hreport => ?_,
      target_of_parse hparse⟩
    · rw [hrun] at hg
      obtain rfl := Except.error.inj hg
      exact hf
    · rw [hrun]
      obtain ⟨stage, hstage, -⟩ := hf
      exact iff_of_false (by simp) fun hnone => hnone stage f hstage
    · rw [hrun] at hreport
      exact absurd hreport (by simp)

/-- The limit of the command line stands in front of the one byte of the configuration file, and the
format of the file in front of the default.  A limit of zero bytes is told before the source, which is
absent, and the line, which is zero. -/
theorem run_by_stages_shadowed :
    let config := "[analysis]\nmax_input_bytes = 1\n\n[output]\nformat = \"json\"\n"
    let d : Directory := [("caret.toml", .file config.toUTF8), ("main.go", .file "x.".toUTF8)]
    let words := ["--config", "caret.toml", "--max-input-bytes", "2", "--offset", "9", "main.go"]
    let a : Arguments := ⟨.file "main.go", .offset 9, some "caret.toml", ⟨some 2, none, none⟩⟩
    let words' := ["--config", "caret.toml", "--max-input-bytes", "0", "--line", "0", "--column", "1",
      "absent.go"]
    let a' : Arguments := ⟨.file "absent.go", .place 0 1, some "caret.toml", ⟨some 0, none, none⟩⟩
    parse words = .ok a ∧ runIn d .empty a = .ok ((Report.ofCursor "x." 2).render .json) ∧
      parse words' = .ok a' ∧ runIn d .empty a' = .error (.settings .zeroLimit) := by
  intro config d words a words' a'
  let c := Contents.ofDirectory d .empty
  have hparse : parse words = .ok a := by decide
  have hparse' : parse words' = .ok a' := by decide
  have hpreferences : Preferences.parse? config = some ⟨some 1, some .json, none⟩ := by
    decide +kernel
  have hconfig : c (.file "caret.toml") = .ok config.toUTF8 := rfl
  have hvalid : ∀ path, some "caret.toml" = some path → ∃ (text : String) (preferences : Preferences),
      c (.file path) = .ok text.toUTF8 ∧ Preferences.parse? text = some preferences := by
    rintro path hpath
    obtain rfl := Option.some.inj hpath
    exact ⟨config, _, hconfig, hpreferences⟩
  have hsource : c (.file "main.go") = .ok "x.".toUTF8 := rfl
  refine ⟨hparse, ?_, hparse', ?_⟩
  · have horder : a.InOrder c :=
      ⟨hvalid, Nat.succ_ne_zero 1, "x.", hsource, Nat.le_refl 2, fun _ _ h => absurd h (by simp [a])⟩
    have hformat : a.format c = .json := by
      rw [format, filePreferences_of_parse rfl hconfig hpreferences]
      rfl
    obtain ⟨report, hrun⟩ := (run_by_stages hparse c).2.1.2 horder
    obtain ⟨text, n, hread, hn, rfl⟩ := (run_by_stages hparse c).2.2.1 report hrun
    obtain rfl := Contents.text_inj hread hsource
    -- the offset is past the end
    cases hn
    rw [runIn_eq, hrun, hformat]
    rfl
  · have hfirst : a'.FailsFirst c (.settings .zeroLimit) := by
      refine ⟨.limit, .zeroLimit rfl, fun earlier hlt f hfails => ?_⟩
      cases earlier with
      | config => exact not_fails_config hvalid hfails
      | _ => exact absurd hlt (by decide)
    rw [runIn_eq]
    exact ((run_by_stages hparse' c).1 _).2 hfirst

end Arguments

end Caret
