/-
**Reading a JSON report back.**

A report in JSON is one object.  Its fields hold the place of the cursor, the name of the context, and the
parts of that context, which are other ones for each kind.  A part that may be missing is `null` then,
and a string otherwise, be it an empty one.  The names of the fields are all different, so that each part
is found under its name, and the parts that are found are all that the report consists of.

Main definitions:

* `Caret.ContextKind.partNames`, `Caret.Context.FoundIn` — the names of the parts of a context, and the
  parts found under them;
* `Caret.Report.SaidBy` — fields say a report.

Main results:

* `Caret.Report.saidBy_json` — a report is said by the fields of its object;
* `Caret.Report.SaidBy.unique` — fields say one report only;
* `Caret.Report.render_json_inj` — different reports have different texts;
* `Caret.Report.render_json_exact` — **a JSON report is read as what it reports, and as nothing else**.
-/

import Caret.Proofs.JsonReader
import Caret.Proofs.TextReport

set_option relaxedAutoImplicit false
set_option autoImplicit false

namespace Caret

/-- The names of the parts of a context. -/
def ContextKind.partNames : ContextKind → List String
  | unknown => ["partial"]
  | importPath => ["path"]
  | selector => ["expr", "partial"]
  | compositeLiteral => ["typeName", "partial"]

/-- The parts of a context are found under their names.  A missing one is `null`. -/
def Context.FoundIn (fields : List (String × Json)) : Context → Prop
  | unknown typed => fields.lookup "partial" = some (.string typed)
  | importPath path => fields.lookup "path" = some (.string path)
  | selector operand typed =>
    fields.lookup "expr" = some (operand.elim .null .string) ∧
      fields.lookup "partial" = some (.string typed)
  | compositeLiteral typeName typed =>
    fields.lookup "typeName" = some (typeName.elim .null .string) ∧
      fields.lookup "partial" = some (.string typed)

/-- A part that may be missing is known by what stands for it. -/
theorem elim_null_string_inj {s s' : Option String} :
    s.elim Json.null Json.string = s'.elim Json.null Json.string ↔ s = s' := by
  cases s <;> cases s' <;> simp

/-- Contexts of one kind with the same parts are the same. -/
theorem Context.FoundIn.unique {fields : List (String × Json)} {c c' : Context} (h : c.FoundIn fields)
    (hkind : c.kind = c'.kind) (h' : c'.FoundIn fields) : c = c' := by
  cases c with
  | unknown typed =>
      cases c' with
      | unknown typed' => simpa using h.symm.trans h'
      | _ => simp [kind] at hkind
  | importPath path =>
      cases c' with
      | importPath path' => simpa using h.symm.trans h'
      | _ => simp [kind] at hkind
  | selector operand typed =>
      cases c' with
      | selector operand' typed' =>
          have hoperand := h.1.symm.trans h'.1
          have htyped := h.2.symm.trans h'.2
          simp_all [elim_null_string_inj]
      | _ => simp [kind] at hkind
  | compositeLiteral typeName typed =>
      cases c' with
      | compositeLiteral typeName' typed' =>
          have hname := h.1.symm.trans h'.1
          have htyped := h.2.symm.trans h'.2
          simp_all [elim_null_string_inj]
      | _ => simp [kind] at hkind

/-- Among the parts of a context only a missing expression or type name is `null`. -/
theorem Context.FoundIn.of_null {fields : List (String × Json)} {c : Context} {name : String}
    (h : c.FoundIn fields) (hname : name ∈ c.kind.partNames) (hnull : fields.lookup name = some .null) :
    (name = "expr" ∧ ∃ typed, c = .selector none typed) ∨
      (name = "typeName" ∧ ∃ typed, c = .compositeLiteral none typed) := by
  cases c with
  | unknown typed =>
      obtain rfl := List.mem_singleton.1 hname
      exact absurd (h.symm.trans hnull) (by simp)
  | importPath path =>
      obtain rfl := List.mem_singleton.1 hname
      exact absurd (h.symm.trans hnull) (by simp)
  | selector operand typed =>
      rcases List.mem_pair.1 hname with rfl | rfl
      · cases operand with
        | none => exact Or.inl ⟨rfl, typed, rfl⟩
        | some s => exact absurd (h.1.symm.trans hnull) (by simp)
      · exact absurd (h.2.symm.trans hnull) (by simp)
  | compositeLiteral typeName typed =>
      rcases List.mem_pair.1 hname with rfl | rfl
      · cases typeName with
        | none => exact Or.inr ⟨rfl, typed, rfl⟩
        | some s => exact absurd (h.1.symm.trans hnull) (by simp)
      · exact absurd (h.2.symm.trans hnull) (by simp)

namespace Report

/-- The fields of an object say a report: its cursor, its kind of context and the parts of this context,
each under a name of its own, and nothing besides. -/
structure SaidBy (fields : List (String × Json)) (r : Report) : Prop where
  names : fields.map (·.1) = "cursor" :: "context" :: r.context.kind.partNames
  cursor : fields.lookup "cursor" = some (.object
    [("line", .number r.cursor.line), ("column", .number r.cursor.column),
      ("offset", .number r.cursor.offset)])
  kind : fields.lookup "context" = some (.string r.context.kind.name)
  parts : r.context.FoundIn fields

/-! ### The fields of a report -/

theorem optional_eq (s : Option String) : optional s = s.elim .null .string := by
  cases s <;> rfl

/-- A report is said by the fields of its object. -/
theorem saidBy_json (r : Report) : ∃ fields, r.json = .object fields ∧ SaidBy fields r := by
  obtain ⟨place, context⟩ := r
  refine ⟨_, rfl, ?_⟩
  cases context with
  | unknown typed => exact ⟨rfl, rfl, rfl, rfl⟩
  | importPath path => exact ⟨rfl, rfl, rfl, rfl⟩
  | selector operand typed =>
      exact ⟨rfl, rfl, rfl, congrArg some (optional_eq operand), rfl⟩
  | compositeLiteral typeName typed =>
      exact ⟨rfl, rfl, rfl, congrArg some (optional_eq typeName), rfl⟩

section

variable {fields : List (String × Json)} {r r' : Report}

/-- The names of the fields are all different. -/
theorem SaidBy.nodup (h : SaidBy fields r) : (fields.map (·.1)).Nodup := by
  rw [h.names]
  cases r.context.kind <;> decide

/-- `null` stands for an expression or a type name that is missing, and for nothing else. -/
theorem SaidBy.lookup_eq_null_iff (h : SaidBy fields r) {name : String} :
    fields.lookup name = some .null ↔
      (name = "expr" ∧ ∃ typed, r.context = .selector none typed) ∨
        (name = "typeName" ∧ ∃ typed, r.context = .compositeLiteral none typed) := by
  have hparts := h.parts
  constructor
  · intro hnull
    -- only what stands under one of the names can be null
    have hname : name ∈ fields.map (·.1) := by
      obtain ⟨front, back, rfl, -⟩ := List.lookup_eq_some_iff.1 hnull
      simp
    rw [h.names, List.mem_cons, List.mem_cons] at hname
    rcases hname with rfl | rfl | hname
    · simp [h.cursor] at hnull
    · simp [h.kind] at hnull
    · exact hparts.of_null hname hnull
  · rintro (⟨rfl, typed, hc⟩ | ⟨rfl, typed, hc⟩)
    · rw [hc] at hparts
      exact hparts.1
    · rw [hc] at hparts
      exact hparts.1

/-- The object of a cursor tells the place. -/
theorem SaidBy.cursor_eq (h : SaidBy fields r) (h' : SaidBy fields r') : r.cursor = r'.cursor := by
  have hplace := h.cursor.symm.trans h'.cursor
  simp only [Option.some.injEq, Json.object.injEq, List.cons.injEq, Prod.mk.injEq,
    Json.number.injEq, true_and, and_true] at hplace
  obtain ⟨hline, hcolumn, hoffset⟩ := hplace
  obtain ⟨⟨line, column, offset⟩, context⟩ := r
  simp_all

/-- The name of the kind and the parts tell the context. -/
theorem SaidBy.context_eq (h : SaidBy fields r) (h' : SaidBy fields r') : r.context = r'.context := by
  have hname := h.kind.symm.trans h'.kind
  simp only [Option.some.injEq, Json.string.injEq, ContextKind.name_inj] at hname
  exact h.parts.unique hname h'.parts

/-- Fields say one report only. -/
theorem SaidBy.unique (h : SaidBy fields r) (h' : SaidBy fields r') : r = r' := by
  have hcursor := h.cursor_eq h'
  have hcontext := h.context_eq h'
  cases r
  cases r'
  simp_all

end

/-! ### The text of a report -/

/-- The text of a report is read as an object that says it, and as nothing else. -/
theorem exists_fields (r : Report) : ∃ fields, SaidBy fields r ∧
    Json.Denotes (r.render .json) (.object fields) := by
  obtain ⟨fields, hjson, hsaid⟩ := saidBy_json r
  refine ⟨fields, hsaid, ?_⟩
  rw [← hjson]
  exact Json.denotes_render r.json

/-- Different reports have different texts. -/
theorem render_json_inj {r r' : Report} : r.render .json = r'.render .json ↔ r = r' := by
  constructor
  · intro h
    obtain ⟨fields, hsaid, hdenotes⟩ := exists_fields r
    obtain ⟨fields', hsaid', hdenotes'⟩ := exists_fields r'
    rw [h] at hdenotes
    obtain rfl := Json.object.inj (hdenotes.unique hdenotes')
    exact hsaid.unique hsaid'
  · rintro rfl
    rfl

/-- **A JSON report is read as what it reports, and as nothing else.**  For every report, whatever its
place and the texts in it, its text is that of one object and of no other value, and reading gives this
object.  The names of its fields are all different; under them stand the line, the column and the offset
of the cursor, the name of the context, and the parts of this context and of no other.  `null` stands for
an expression or a type name that is missing, and only for these.  No other report has the same text. -/
theorem render_json_exact (r : Report) :
    ∃ fields, Json.Denotes (r.render .json) (.object fields) ∧
      (∀ j, Json.Denotes (r.render .json) j → j = .object fields) ∧
      Json.read? (r.render .json) = some (.object fields) ∧
      SaidBy fields r ∧ (fields.map (·.1)).Nodup ∧
      (∀ name, fields.lookup name = some .null ↔
        (name = "expr" ∧ ∃ typed, r.context = .selector none typed) ∨
          (name = "typeName" ∧ ∃ typed, r.context = .compositeLiteral none typed)) ∧
      ∀ r' : Report, r'.render .json = r.render .json ↔ r' = r := by
  obtain ⟨fields, hsaid, hdenotes⟩ := exists_fields r
  refine ⟨fields, hdenotes, fun j hj => hj.unique hdenotes, Json.read?_of_denotes hdenotes, hsaid,
    hsaid.nodup, fun name => hsaid.lookup_eq_null_iff, fun r' => render_json_inj⟩

/-- An expression that is missing is not one that is empty. -/
example (place : Position) (typed : String) :
    (⟨place, .selector none typed⟩ : Report).render .json ≠
      (⟨place, .selector (some "") typed⟩ : Report).render .json := by
  simp [render_json_inj]

end Report

end Caret
