import Mathlib
import QuerySql.Compiler
import QuerySql.Proofs.Reading

/-!
# Vacuous filters

A filter leaves no condition on ungrouped rows exactly where it is vacuous: where there is nothing
in it but null, empty lists and objects, and tests of membership in no values
(`Compiler.filter_eq_none_iff`). Scalars tell the two apart: outside a list they are no filter at
all, while under a column they are always a condition.
-/

namespace QuerySql

/-- The values that ask nothing of a column. -/
inductive VacuousValue : Json → Prop where
  | null : VacuousValue .null
  | array {items : List Json} (each : ∀ v ∈ items, VacuousValue v) : VacuousValue (.array items)
  | object {entries : List (String × Json)} (each : ∀ e ∈ entries, VacuousValue e.2) :
      VacuousValue (.object entries)
  | oneOfNone {s : String} (h : Condition.expressionOf s = .operator (.test (.oneOf []))) :
      VacuousValue (.string s)
  | anyOfNone {s : String} (h : Condition.expressionOf s = .operator (.anyOf [])) :
      VacuousValue (.string s)
  | notOneOfNone {s : String} (h : Condition.expressionOf s = .operator (.not (.oneOf []))) :
      VacuousValue (.string s)
  | allOf {s : String} {items : List Json}
      (h : Condition.expressionOf s = .operator (.allOf items))
      (each : ∀ v ∈ items, VacuousValue v) : VacuousValue (.string s)

mutual

/-- The filters that ask nothing of a row. -/
inductive VacuousFilter : Json → Prop where
  | null : VacuousFilter .null
  | bool (b : Bool) : VacuousFilter (.bool b)
  | number (n : Number) : VacuousFilter (.number n)
  | string (s : String) : VacuousFilter (.string s)
  | array {items : List Json} (each : ∀ v ∈ items, VacuousItem v) : VacuousFilter (.array items)
  | object {entries : List (String × Json)} (each : ∀ e ∈ entries, VacuousValue e.2) :
      VacuousFilter (.object entries)

/-- The items of a list of filters that ask nothing of a row. -/
inductive VacuousItem : Json → Prop where
  | null : VacuousItem .null
  | blank : VacuousItem (.string "")
  | array {items : List Json} (h : VacuousFilter (.array items)) : VacuousItem (.array items)
  | object {entries : List (String × Json)} (h : VacuousFilter (.object entries)) :
      VacuousItem (.object entries)

end

variable {items : List Json} {entries : List (String × Json)}

theorem VacuousValue.array_iff : VacuousValue (.array items) ↔ ∀ v ∈ items, VacuousValue v :=
  ⟨fun h => by cases h with | array each => exact each, .array⟩

theorem VacuousValue.object_iff :
    VacuousValue (.object entries) ↔ ∀ e ∈ entries, VacuousValue e.2 :=
  ⟨fun h => by cases h with | object each => exact each, .object⟩

theorem VacuousFilter.array_iff : VacuousFilter (.array items) ↔ ∀ v ∈ items, VacuousItem v :=
  ⟨fun h => by cases h with | array each => exact each, .array⟩

theorem VacuousFilter.object_iff :
    VacuousFilter (.object entries) ↔ ∀ e ∈ entries, VacuousValue e.2 :=
  ⟨fun h => by cases h with | object each => exact each, .object⟩

theorem VacuousItem.string_iff {s : String} : VacuousItem (.string s) ↔ s = "" := by
  constructor
  · intro h
    cases h
    rfl
  · rintro rfl
    exact .blank

theorem VacuousItem.array_iff : VacuousItem (.array items) ↔ VacuousFilter (.array items) :=
  ⟨fun h => by cases h with | array h => exact h, .array⟩

theorem VacuousItem.object_iff :
    VacuousItem (.object entries) ↔ VacuousFilter (.object entries) :=
  ⟨fun h => by cases h with | object h => exact h, .object⟩

theorem VacuousValue.operator_iff {s : String} {op : Operator}
    (h : Condition.expressionOf s = .operator op) :
    VacuousValue (.string s) ↔ op = .test (.oneOf []) ∨ op = .not (.oneOf []) ∨ op = .anyOf []
      ∨ ∃ items, op = .allOf items ∧ ∀ v ∈ items, VacuousValue v := by
  constructor
  · intro hv
    cases hv with
    | oneOfNone h' => rw [h] at h'; cases h'; exact .inl rfl
    | notOneOfNone h' => rw [h] at h'; cases h'; exact .inr (.inl rfl)
    | anyOfNone h' => rw [h] at h'; cases h'; exact .inr (.inr (.inl rfl))
    | allOf h' each => rw [h] at h'; cases h'; exact .inr (.inr (.inr ⟨_, rfl, each⟩))
  · rintro (rfl | rfl | rfl | ⟨items, rfl, each⟩)
    · exact .oneOfNone h
    · exact .notOneOfNone h
    · exact .anyOfNone h
    · exact .allOf h each

theorem VacuousValue.not_text {s : String} (h : ∀ op, Condition.expressionOf s ≠ .operator op) :
    ¬ VacuousValue (.string s) := by
  intro hv
  cases hv with
  | oneOfNone h' | notOneOfNone h' | anyOfNone h' | allOf h' _ => exact h _ h'

/-! ## Values of a column -/

theorem Test.sql_eq_empty {column : String} {t : Test} : t.sql column = "" ↔ t = .oneOf [] := by
  cases t with
  | oneOf items => cases items <;> simp [sql]
  | _ => simp [sql, equality]

theorem Test.negatedSql_eq_empty {column : String} {t : Test} :
    t.negatedSql column = "" ↔ t = .oneOf [] := by
  cases t with
  | oneOf items => cases items <;> simp [negatedSql]
  | _ => simp [negatedSql]

theorem Leaf.sql_eq_empty {column : String} {l : Leaf} : l.sql column = ""
    ↔ l = .test (.oneOf []) ∨ l = .not (.oneOf []) ∨ l = .anyOf [] := by
  cases l with
  | test t => simp [sql, Test.sql_eq_empty]
  | not t => simp [sql, Test.negatedSql_eq_empty]
  | anyOf items => cases items <;> simp [sql]
  | _ => simp [sql, equality]

namespace Condition

variable {table : String} {column : String}

theorem sql_leaf_eq_empty {scope : Scope} {l : Leaf} :
    ((leaf l).formula scope .rows column).sql = ""
      ↔ l = .test (.oneOf []) ∨ l = .not (.oneOf []) ∨ l = .anyOf [] :=
  Leaf.sql_eq_empty

theorem sql_aggregate_ne_empty (f : Aggregate) (c : Condition) :
    ((aggregate f c).formula ⟨table, false⟩ .rows column).sql ≠ "" := by
  simp [formula, Scope.aggregateOfTable, Formula.sql_leaf]

/-- A value leaves no condition on its column exactly where it is vacuous. -/
theorem sql_eq_empty_iff {v : Json} :
    ((ofJson v).formula ⟨table, false⟩ .rows column).sql = "" ↔ VacuousValue v := by
  induction v using ofJson_induction generalizing column with
  | null => exact iff_of_true (by rw [ofJson_null]; rfl) .null
  | bool b =>
    rw [ofJson_bool, sql_leaf_eq_empty]
    exact iff_of_false (by simp) nofun
  | number n =>
    rw [ofJson_number, sql_leaf_eq_empty]
    exact iff_of_false (by simp) nofun
  | array items ih =>
    rw [formula_array, Formula.sql_any_eq_empty, List.forall_mem_map, VacuousValue.array_iff]
    exact forall₂_congr fun v hv => ih v hv
  | object entries ih =>
    rw [formula_object, Formula.sql_fields_eq_empty, List.forall_mem_map, VacuousValue.object_iff]
    exact forall₂_congr fun e he => ih e he
  | string s ih =>
    by_cases h : ∃ op, expressionOf s = .operator op
    · obtain ⟨op, h⟩ := h
      rw [VacuousValue.operator_iff h]
      cases op with
      | allOf items =>
        rw [formula_allOf _ _ _ h, Formula.sql_all_eq_empty, List.forall_mem_map]
        have hi : (∀ v ∈ items, ((ofJson v).formula ⟨table, false⟩ .rows column).sql = "")
            ↔ ∀ v ∈ items, VacuousValue v := forall₂_congr fun v hv => ih _ h v hv
        simp [hi]
      | aggregate f arg =>
        rw [ofJson_operator h]
        exact iff_of_false (sql_aggregate_ne_empty f (ofJson arg)) (by simp)
      | test t | not t | notEqual v | between low high | anyOf items =>
        rw [ofJson_operator h, ofOperator, sql_leaf_eq_empty]
        simp
    · push Not at h
      refine iff_of_false ?_ (VacuousValue.not_text h)
      rcases ofJson_text h with hl | ⟨t, hl⟩
      · rw [hl, sql_leaf_eq_empty]; simp
      · rw [hl, sql_leaf_eq_empty]; simp

end Condition

/-! ## Filters -/

namespace Filter

variable {table : String}

theorem sql_raw_eq_empty {scope : Scope} {sql : String} :
    ((raw sql).formula scope .rows).sql = "" ↔ sql = "" := Iff.rfl

theorem sql_object_eq_empty {list : Bool} {entries : List (String × Json)} :
    ((ofJsonWithin list (.object entries)).formula ⟨table, false⟩ .rows).sql = ""
      ↔ VacuousFilter (.object entries) := by
  rw [formula_object, Formula.sql_all_eq_empty, List.forall_mem_map, VacuousFilter.object_iff]
  exact forall₂_congr fun _ _ => Condition.sql_eq_empty_iff

theorem sql_within_eq_empty_iff : ∀ {v : Json},
    ((ofJsonWithin true v).formula ⟨table, false⟩ .rows).sql = "" ↔ VacuousItem v
  | .null => iff_of_true rfl .null
  | .bool b => by
    refine sql_raw_eq_empty.trans (iff_of_false ?_ nofun)
    cases b <;> decide
  | .number n => sql_raw_eq_empty.trans (iff_of_false n.text_ne_empty nofun)
  | .string s => sql_raw_eq_empty.trans VacuousItem.string_iff.symm
  | .array items => by
    rw [formula_array, Formula.sql_any_eq_empty, List.forall_mem_map, VacuousItem.array_iff,
      VacuousFilter.array_iff]
    exact forall₂_congr fun v hv => sql_within_eq_empty_iff
  | .object _ => sql_object_eq_empty.trans VacuousItem.object_iff.symm

theorem sql_eq_empty : ∀ {v : Json}, (ofJson v).sql ⟨table, false⟩ .rows = "" ↔ VacuousFilter v
  | .null => iff_of_true rfl .null
  | .bool b => iff_of_true rfl (.bool b)
  | .number n => iff_of_true rfl (.number n)
  | .string s => iff_of_true rfl (.string s)
  | .array items => (sql_within_eq_empty_iff (v := .array items)).trans VacuousItem.array_iff
  | .object _ => sql_object_eq_empty

end Filter

namespace Compiler

/-- No filter vanishes: ungrouped rows are kept unconditionally only where the filter is vacuous,
and under any column whatever is not vacuous writes a condition. -/
theorem filter_eq_none_iff {c : Compiler} {r : Request} {v : Json} (hf : r.filter = some v)
    (hg : (c.compile r).isGrouped = false) :
    ((c.compile r).filter = none ↔ VacuousFilter v)
      ∧ ∀ w column, ((Condition.ofJson w).formula ⟨c.schema.table, false⟩ .rows column).sql = ""
          ↔ VacuousValue w := by
  refine ⟨?_, fun w column => Condition.sql_eq_empty_iff⟩
  rw [filter_compile, hg, hf, Option.bind_some, present_eq_none]
  exact Filter.sql_eq_empty

/-- A test of membership in no values leaves nothing of the filter. -/
theorem filter_eq_none_of_oneOfNone :
    let c : Compiler := { schema := .ofTable "user" }
    let r : Request := { filter := some (.object [("id", .string "$In()"), ("role", .array [])]) }
    (c.compile r).isGrouped = false ∧ (c.compile r).filter = none := by
  intro c r
  have hg : (c.compile r).isGrouped = false := by
    simp [c, r, compile, Statement.isGrouped, groupItems, AskedTree.items, distinct,
      distinctBy_nil, present]
  have hs : Condition.expressionOf "$In()" = .operator (.test (.oneOf [])) := by cbv
  refine ⟨hg, (filter_eq_none_iff rfl hg).1.2 (.object ?_)⟩
  rintro e (_ | ⟨_, _ | ⟨_, ⟨⟩⟩⟩)
  · exact .oneOfNone hs
  · exact .array (List.forall_mem_nil _)

end Compiler

end QuerySql
