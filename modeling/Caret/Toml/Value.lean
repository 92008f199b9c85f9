/-
**Values of a TOML document.**

A document is a table of values.  Tables come about in several ways, and how one came about decides
what later lines may still add to it; so a table remembers its origin, and an array of tables is
kept apart from an array written out as a value.

Main definitions:

* `Caret.Toml.Origin` — how a table came about;
* `Caret.Toml.Value`, `Caret.Toml.Entries` — a value, and the entries of a table;
* `Caret.Toml.Value.entries?`, `Caret.Toml.Value.items?` — a value as a table or as an array;
* `Caret.Toml.Value.isReadable` — has each number in a value a value itself?
* `Caret.Toml.Entries.get?`, `Caret.Toml.Entries.update` — looking an entry up, and changing it.

Main results:

* `Caret.Toml.Entries.get?_update_self` — an update puts what it was told to put.
-/

set_option relaxedAutoImplicit false
set_option autoImplicit false

namespace Caret.Toml

/-- How a table came about. -/
inductive Origin where
  /-- A header names it. -/
  | named
  /-- A header names a table inside of it. -/
  | implied
  /-- A dotted key leads through it. -/
  | dotted
  /-- It is written between braces. -/
  | closed
  deriving DecidableEq, Repr

/-- A value.  The values of floats and dates are kept as they are written. -/
inductive Value where
  | string (s : String)
  | integer (n : Int)
  | float (text : String)
  | boolean (b : Bool)
  | dateTime (text : String)
  /-- A number that has no value.  It may stand in a document but not be read. -/
  | badNumber (text : String)
  | array (items : List Value)
  | table (origin : Origin) (entries : List (String × Value))
  /-- The tables that headers in double brackets have added, the last one apart. -/
  | tables (front : List (List (String × Value))) (last : List (String × Value))

/-- The entries of a table, in the order in which they were added. -/
abbrev Entries := List (String × Value)

namespace Value

/-- The entries of a table. -/
def entries? : Value → Option Entries
  | table _ entries => some entries
  | _ => none

theorem entries?_eq_some_iff {v : Value} {entries : Entries} :
    v.entries? = some entries ↔ ∃ origin, v = .table origin entries := by
  cases v <;> simp [entries?]

/-- The items of an array, which for an array of tables are its tables. -/
def items? : Value → Option (List Value)
  | array items => some items
  | tables front last => some ((front ++ [last]).map (table .named))
  | _ => none

mutual

/-- Has each number in the value a value? -/
def isReadable : Value → Bool
  | badNumber _ => false
  | array items => areReadable items
  | table _ entries => haveReadable entries
  | tables front last => allHaveReadable front && haveReadable last
  | _ => true

/-- Has each number in the values a value? -/
def areReadable : List Value → Bool
  | [] => true
  | v :: vs => v.isReadable && areReadable vs

/-- Has each number under the keys a value? -/
def haveReadable : List (String × Value) → Bool
  | [] => true
  | (_, v) :: entries => v.isReadable && haveReadable entries

/-- Has each number in the tables a value? -/
def allHaveReadable : List (List (String × Value)) → Bool
  | [] => true
  | entries :: rest => haveReadable entries && allHaveReadable rest

end

end Value

namespace Entries

/-- The value under a key. -/
def get? (entries : Entries) (key : String) : Option Value :=
  (entries.find? fun entry => entry.1 == key).map (·.2)

/-- The entries with `change` applied to what stands under a key; a key that is new is added at the
end.  There are none if the change is refused. -/
def update (key : String) (change : Option Value → Option Value) : Entries → Option Entries
  | [] => (change none).map fun v => [(key, v)]
  | (k, v) :: rest =>
    if k = key then (change (some v)).map fun w => (k, w) :: rest
    else (update key change rest).map ((k, v) :: ·)

/-- An update puts what the change makes of the value that stood there. -/
theorem get?_update_self {key : String} {change : Option Value → Option Value}
    {before after : Entries} (h : update key change before = some after) :
    after.get? key = change (before.get? key) := by
  induction before generalizing after with
  | nil =>
      obtain ⟨v, hv, rfl⟩ := Option.map_eq_some_iff.1 h
      simp [get?, hv]
  | cons entry rest ih =>
      obtain ⟨k, v⟩ := entry
      rw [update] at h
      split at h
      · next hk =>
          subst hk
          obtain ⟨w, hw, rfl⟩ := Option.map_eq_some_iff.1 h
          simp [get?, hw]
      · next hk =>
          obtain ⟨tail, ht, rfl⟩ := Option.map_eq_some_iff.1 h
          have hne : (k == key) = false := by simpa using hk
          have := ih ht
          simp only [get?, List.find?_cons, hne] at this ⊢
          exact this

end Entries

end Caret.Toml
