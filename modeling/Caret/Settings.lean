/-
**Settings.**

What the user prefers may be said on the command line and in a configuration file, and is partly
left open in both.  The command line wins over the file, and a default fills what is left.

A configuration file is a TOML document with the sections `analysis`, `output` and `log`, which are
tables; entries of a section that have no meaning are passed over, other sections are not allowed.
A section may also be written as an array that holds its one entry; the items behind it are not even
read.  A section that is a date says nothing.

Main definitions:

* `Caret.Preferences`, `Caret.Preferences.orElse` — what is said in one place, and giving one
  place precedence over another;
* `Caret.Preferences.ofDocument?`, `Caret.Preferences.parse?` — the preferences of a configuration
  file;
* `Caret.Preferences.Says`, `Caret.Preferences.WrittenIn` — what a section of a document says about one
  setting, and what the document says about all of them;
* `Caret.Settings`, `Caret.Settings.resolve` — the settings that result.

Main results:

* `Caret.Preferences.parse?_eq_some_iff` — **a configuration file is read as what is written in it**, and a
  file with any other section, or with a value of another kind, is refused;
* `Caret.Settings.resolve_eq_error_iff` — the only fault is a limit of zero bytes.
-/

import Caret.Report
import Caret.Toml.Document

set_option relaxedAutoImplicit false
set_option autoImplicit false

namespace Caret

/-- What is said in one place. -/
structure Preferences where
  /-- The longest source that is accepted, in bytes. -/
  maxInputBytes : Option Nat
  /-- How the report is written. -/
  format : Option Report.Format
  /-- Which events are logged. -/
  logFilter : Option String
  deriving DecidableEq, Repr

namespace Preferences

/-- Nothing is said. -/
def nothing : Preferences := ⟨none, none, none⟩

/-- What is said in `p`, and where it says nothing, what is said in `q`. -/
def orElse (p q : Preferences) : Preferences :=
  ⟨p.maxInputBytes.or q.maxInputBytes, p.format.or q.format, p.logFilter.or q.logFilter⟩

/-! ### Configuration files -/

/-- The sections of a configuration file. -/
def sections : List String := ["analysis", "output", "log"]

/-- The entry of a section, which itself may be missing; nothing if the section is no table, array
or date, or if it is a table with an entry that is not readable. -/
def entry? (document : Toml.Entries) (name key : String) : Option (Option Toml.Value) :=
  match document.get? name with
  | none => some none
  | some (.dateTime _) => some none
  | some v =>
    match v.entries?, v.items? with
    | some entries, _ =>
      if Toml.Value.haveReadable entries then some (entries.get? key) else none
    | _, some items => some items.head?
    | _, _ => none

/-- A number of bytes that fits 64 bits. -/
def byteCount? : Toml.Value → Option Nat
  | .integer n => if 0 ≤ n ∧ n < Int.pow 2 64 then some n.toNat else none
  | _ => none

/-- A text. -/
def text? : Toml.Value → Option String
  | .string s => some s
  | _ => none

/-- A format by its name.  The name may also be the only key of a table, with nothing under it. -/
def format? (v : Toml.Value) : Option Report.Format :=
  match text? v, v.entries? with
  | some name, _ => Report.Format.ofName? name
  | _, some [(name, content)] =>
    match content.entries?, content with
    | some [], _ => Report.Format.ofName? name
    | _, .array [] => Report.Format.ofName? name
    | _, _ => none
  | _, _ => none

/-- The preferences in a document; nothing if it is no configuration. -/
def ofDocument? (document : Toml.Entries) : Option Preferences := do
  if document.all fun entry => entry.1 ∈ sections then
    let limit ← entry? document "analysis" "max_input_bytes"
    let format ← entry? document "output" "format"
    let filter ← entry? document "log" "filter"
    return ⟨← limit.mapM byteCount?, ← format.mapM format?, ← filter.mapM text?⟩
  else none

/-- The preferences in a configuration file; nothing if it is not valid. -/
def parse? (file : String) : Option Preferences := Toml.parse? file >>= ofDocument?

/-! ### What a configuration file says -/

/-- The value under the key `key` in the section `name`, if there is one.  A section that is missing or a
date has none.  In a table it stands under the key, provided that each number in the table has a value; in
an array it is the first item. -/
inductive HasEntry (document : Toml.Entries) (name key : String) : Option Toml.Value → Prop
  | missing (h : document.get? name = none) : HasEntry document name key none
  | dateTime {text : String} (h : document.get? name = some (.dateTime text)) :
      HasEntry document name key none
  | table {origin : Toml.Origin} {entries : Toml.Entries}
      (h : document.get? name = some (.table origin entries))
      (hreadable : Toml.Value.haveReadable entries = true) :
      HasEntry document name key (entries.get? key)
  | items {v : Toml.Value} {items : List Toml.Value} (h : document.get? name = some v)
      (hitems : v.items? = some items) : HasEntry document name key items.head?

/-- A section says nothing about a setting, or its entry has a value that means the setting. -/
inductive Says {α : Type} (document : Toml.Entries) (name key : String)
    (Means : Toml.Value → α → Prop) : Option α → Prop
  | nothing (h : HasEntry document name key none) : Says document name key Means none
  | value {v : Toml.Value} {setting : α} (h : HasEntry document name key (some v))
      (hmeans : Means v setting) : Says document name key Means (some setting)

/-- A value names a format: it is the name, or a table with the name as its only key and nothing under
it. -/
inductive NamesFormat : Toml.Value → Report.Format → Prop
  | string (format : Report.Format) : NamesFormat (.string format.name) format
  | table (origin inner : Toml.Origin) (format : Report.Format) :
      NamesFormat (.table origin [(format.name, .table inner [])]) format
  | array (origin : Toml.Origin) (format : Report.Format) :
      NamesFormat (.table origin [(format.name, .array [])]) format

/-- A document has no section but these three, and each says the setting that is kept in it. -/
structure WrittenIn (p : Preferences) (document : Toml.Entries) : Prop where
  sections : ∀ entry ∈ document, entry.1 = "analysis" ∨ entry.1 = "output" ∨ entry.1 = "log"
  maxInputBytes : Says document "analysis" "max_input_bytes"
    (fun v (n : Nat) => v = .integer n ∧ n < UInt64.size) p.maxInputBytes
  format : Says document "output" "format" NamesFormat p.format
  logFilter : Says document "log" "filter" (fun v s => v = .string s) p.logFilter

theorem byteCount?_eq_some_iff (v : Toml.Value) (n : Nat) :
    byteCount? v = some n ↔ v = .integer n ∧ n < UInt64.size := by
  unfold byteCount?
  split
  · next m =>
      rw [Option.ite_none_right_eq_some, Option.some.injEq, Toml.Value.integer.injEq]
      have hsize : Int.pow 2 64 = UInt64.size := rfl
      rw [hsize]
      omega
  · next hother => exact iff_of_false (by simp) fun h => hother n h.1

theorem text?_eq_some_iff (v : Toml.Value) (s : String) : text? v = some s ↔ v = .string s := by
  cases v <;> simp [text?]

theorem format?_eq_some_iff (v : Toml.Value) (format : Report.Format) :
    format? v = some format ↔ NamesFormat v format := by
  constructor
  · intro h
    unfold format? at h
    split at h
    · next name hname =>
        obtain rfl := (text?_eq_some_iff v name).1 hname
        obtain rfl := Report.Format.ofName?_eq_some_iff.1 h
        exact .string format
    · next name content hentries _ =>
        obtain ⟨origin, rfl⟩ := Toml.Value.entries?_eq_some_iff.1 hentries
        split at h
        · next hcontent =>
            obtain ⟨inner, rfl⟩ := Toml.Value.entries?_eq_some_iff.1 hcontent
            obtain rfl := Report.Format.ofName?_eq_some_iff.1 h
            exact .table origin inner format
        · obtain rfl := Report.Format.ofName?_eq_some_iff.1 h
          exact .array origin format
        · exact absurd h (by simp)
    · exact absurd h (by simp)
  · intro h
    cases h <;> simp [format?, text?, Toml.Value.entries?, Report.Format.ofName?_eq_some_iff]

section

variable {document : Toml.Entries} {name key : String}

theorem entry?_eq_some_iff {found : Option Toml.Value} :
    entry? document name key = some found ↔ HasEntry document name key found := by
  constructor
  · intro h
    unfold entry? at h
    split at h
    · next hget =>
        obtain rfl := Option.some.inj h
        exact .missing hget
    · next hget =>
        obtain rfl := Option.some.inj h
        exact .dateTime hget
    · next v _ hget =>
        split at h
        · next entries hentries =>
            obtain ⟨origin, rfl⟩ := Toml.Value.entries?_eq_some_iff.1 hentries
            rw [Option.ite_none_right_eq_some] at h
            obtain ⟨hreadable, hfound⟩ := h
            obtain rfl := Option.some.inj hfound
            exact .table hget hreadable
        · next items hitems _ =>
            obtain rfl := Option.some.inj h
            exact .items hget hitems
        · exact absurd h (by simp)
  · intro h
    unfold entry?
    cases h with
    | missing hget => simp [hget]
    | dateTime hget => simp [hget]
    | table hget hreadable => simp [hget, Toml.Value.entries?, hreadable]
    | @items v items hget hitems =>
        cases v <;> simp_all [Toml.Value.entries?, Toml.Value.items?]

/-- What a section says about a setting is what reading its entry gives. -/
theorem says_iff {α : Type} {read? : Toml.Value → Option α} {Means : Toml.Value → α → Prop}
    (hread : ∀ v setting, read? v = some setting ↔ Means v setting) {setting : Option α} :
    Says document name key Means setting ↔
      ∃ found, entry? document name key = some found ∧ found.mapM read? = some setting := by
  simp only [entry?_eq_some_iff]
  constructor
  · intro h
    cases h with
    | nothing h => exact ⟨none, h, rfl⟩
    | value h hmeans => exact ⟨_, h, by simp [(hread _ _).2 hmeans]⟩
  · rintro ⟨found, h, hsetting⟩
    cases found with
    | none =>
        obtain rfl := Option.some.inj hsetting
        exact .nothing h
    | some v =>
        obtain ⟨x, hx, rfl⟩ : ∃ x, read? v = some x ∧ some x = setting := by
          simpa [Option.map_eq_some_iff] using hsetting
        exact .value h ((hread v x).1 hx)

end

/-- A document is read as what is written in it. -/
theorem ofDocument?_eq_some_iff {document : Toml.Entries} {p : Preferences} :
    ofDocument? document = some p ↔ p.WrittenIn document := by
  have hsections : (document.all fun entry => decide (entry.1 ∈ sections)) = true ↔
      ∀ entry ∈ document, entry.1 = "analysis" ∨ entry.1 = "output" ∨ entry.1 = "log" := by
    simp [sections]
  constructor
  · intro h
    rw [ofDocument?, Option.ite_none_right_eq_some, hsections] at h
    obtain ⟨hall, h⟩ := h
    simp only [Option.bind_eq_bind, Option.bind_eq_some_iff] at h
    obtain ⟨limit, hlimit, format, hformat, filter, hfilter, n, hn, f, hf, s, hs, hp⟩ := h
    obtain rfl := Option.some.inj hp
    exact ⟨hall, (says_iff byteCount?_eq_some_iff).2 ⟨limit, hlimit, hn⟩,
      (says_iff format?_eq_some_iff).2 ⟨format, hformat, hf⟩,
      (says_iff text?_eq_some_iff).2 ⟨filter, hfilter, hs⟩⟩
  · rintro ⟨hall, hlimit, hformat, hfilter⟩
    obtain ⟨limit, hlimit, hn⟩ := (says_iff byteCount?_eq_some_iff).1 hlimit
    obtain ⟨format, hformat, hf⟩ := (says_iff format?_eq_some_iff).1 hformat
    obtain ⟨filter, hfilter, hs⟩ := (says_iff text?_eq_some_iff).1 hfilter
    rw [ofDocument?, if_pos (hsections.2 hall)]
    simp [hlimit, hn, hformat, hf, hfilter, hs]

/-- **A configuration file is read as what is written in it.**  It has to be a TOML document
with no section but the three, and where a section has the entry of a setting, the value has to be one that
the setting can have.  Any other file is refused. -/
theorem parse?_eq_some_iff {file : String} {p : Preferences} :
    parse? file = some p ↔ ∃ document, Toml.parse? file = some document ∧ p.WrittenIn document := by
  rw [parse?, Option.bind_eq_bind, Option.bind_eq_some_iff]
  exact exists_congr fun document => and_congr_right fun _ => ofDocument?_eq_some_iff

example : parse? "[log]\nfilter = \"warn\"\n\n[cursor]\n" = none := by cbv

end Preferences

/-! ### Settings -/

/-- The settings of a run. -/
structure Settings where
  maxInputBytes : Nat
  format : Report.Format
  logFilter : Option String
  deriving DecidableEq, Repr

/-- Why preferences make no settings. -/
inductive SettingsError where
  /-- No source would be accepted. -/
  | zeroLimit
  deriving DecidableEq, Repr

/-- The wording of an error. -/
def SettingsError.message : SettingsError → String
  | zeroLimit => "max_input_bytes must be greater than 0"

namespace Settings

/-- The settings where nothing is said. -/
def default : Settings := ⟨8388608, .text, none⟩

/-- The settings that preferences make. -/
def resolve (p : Preferences) : Except SettingsError Settings :=
  let limit := p.maxInputBytes.getD default.maxInputBytes
  if limit = 0 then .error .zeroLimit
  else .ok ⟨limit, p.format.getD default.format, p.logFilter.or default.logFilter⟩

/-- The only fault is a limit of zero bytes. -/
theorem resolve_eq_error_iff {p : Preferences} {e : SettingsError} :
    resolve p = .error e ↔ p.maxInputBytes = some 0 := by
  cases e
  cases h : p.maxInputBytes with
  | none => simp [resolve, h, default]
  | some n =>
      by_cases hn : n = 0
      · simp [resolve, h, hn]
      · simp [resolve, h, hn]

end Settings

end Caret
