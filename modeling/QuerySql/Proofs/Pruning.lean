import QuerySql.Filter.Basic
import QuerySql.Proofs.Reading

/-!
# Filters without their vacuous members

Members that write nothing on the columns where they stand may be taken out of a filter, from
objects and lists at any depth, and the text of the filter is the same, with the same parentheses
(`Filter.sql_of_pruned`). What is left of an object or a list may be empty. That the formula before
and the formula after have one outline is what an induction over the filter can carry: the outline
says where alternatives come up, which the text of a part does not.
-/

namespace QuerySql

/-- The members of an object or a list, each with what is left of it; none where it is taken out. -/
abbrev Cut (α : Type) := List (α × Option α)

namespace Cut

variable {α : Type}

def before (c : Cut α) : List α := c.map Prod.fst

def after (c : Cut α) : List α := c.filterMap Prod.snd

theorem outlines_after {c : Cut α} {φ : α → Formula}
    (kept : ∀ x y, (x, some y) ∈ c → (φ y).outline = (φ x).outline)
    (dropped : ∀ x, (x, none) ∈ c → (φ x).sql = "") :
    Formula.outlines (c.after.map φ) = Formula.outlines (c.before.map φ) := by
  rw [Formula.outlines_eq, Formula.outlines_eq, after, before, List.map_map, List.map_filterMap,
    List.filterMap_filterMap, List.filterMap_map]
  refine List.filterMap_congr fun (x, left) hx => ?_
  cases left with
  | none => exact (Formula.sql_eq_empty_iff.1 (dropped x hx)).symm
  | some y => exact kept x y hx

end Cut

variable {scope : Scope} {clause : Clause} {column : String} {v w : Json}

namespace Condition

/-- `Pruned scope clause column v w`: what is left of a value of a column is `w`, where members that
write nothing are taken out. -/
inductive Pruned (scope : Scope) : Clause → String → Json → Json → Prop where
  | whole {clause : Clause} {column : String} (v : Json) : Pruned scope clause column v v
  | array {clause : Clause} {column : String} {c : Cut Json}
    (kept : ∀ v w, (v, some w) ∈ c → Pruned scope clause column v w)
    (dropped : ∀ v, (v, none) ∈ c → ((ofJson v).formula scope clause column).sql = "") :
    Pruned scope clause column (.array c.before) (.array c.after)
  | object {clause : Clause} {column : String} {c : Cut (String × Json)}
    (names : ∀ e e', (e, some e') ∈ c → e'.1 = e.1)
    (kept : ∀ e e', (e, some e') ∈ c →
      Pruned scope clause (lastPart column ++ "." ++ e.1) e.2 e'.2)
    (dropped : ∀ e, (e, none) ∈ c →
      ((ofJson e.2).formula scope clause (lastPart column ++ "." ++ e.1)).sql = "") :
    Pruned scope clause column (.object c.before) (.object c.after)
  | allOf {clause : Clause} {column : String} {s s' : String} {c : Cut Json}
    (hs : expressionOf s = .operator (.allOf c.before))
    (hs' : expressionOf s' = .operator (.allOf c.after))
    (kept : ∀ v w, (v, some w) ∈ c → Pruned scope clause column v w)
    (dropped : ∀ v, (v, none) ∈ c → ((ofJson v).formula scope clause column).sql = "") :
    Pruned scope clause column (.string s) (.string s')
  | aggregate {column : String} {s s' : String} {f : Aggregate} {v w : Json}
    (hs : expressionOf s = .operator (.aggregate f v))
    (hs' : expressionOf s' = .operator (.aggregate f w))
    (argument : Pruned scope .rows (f.apply column) v w) :
    Pruned scope .groups column (.string s) (.string s')

theorem formula_aggregate {s : String} {f : Aggregate} {v : Json}
    (h : expressionOf s = .operator (.aggregate f v)) :
    (ofJson (.string s)).formula scope .groups column
      = (ofJson v).formula scope .rows (f.apply column) := by
  rw [ofJson_operator h, ofOperator, formula]

theorem Pruned.outline_eq (h : Pruned scope clause column v w) :
    ((ofJson w).formula scope clause column).outline
      = ((ofJson v).formula scope clause column).outline := by
  induction h with
  | whole v => rfl
  | array _ dropped ih =>
    rw [formula_array, formula_array, Formula.outline, Formula.outline,
      Cut.outlines_after ih dropped]
  | object names _ dropped ih =>
    rw [formula_object, formula_object, Formula.outline, Formula.outline,
      Cut.outlines_after (fun e e' he => ?_) dropped]
    rw [names e e' he]
    exact ih e e' he
  | allOf hs hs' _ dropped ih =>
    rw [formula_allOf _ _ _ hs, formula_allOf _ _ _ hs', Formula.outline, Formula.outline,
      Cut.outlines_after ih dropped]
  | aggregate hs hs' _ ih => rw [formula_aggregate hs, formula_aggregate hs', ih]

end Condition

namespace Filter

/-- `Pruned scope clause v w`: what is left of a filter is `w`, where members that write nothing are
taken out. -/
inductive Pruned (scope : Scope) (clause : Clause) : Json → Json → Prop where
  | whole (v : Json) : Pruned scope clause v v
  | array {c : Cut Json} (kept : ∀ v w, (v, some w) ∈ c → Pruned scope clause v w)
    (dropped : ∀ v, (v, none) ∈ c → ((ofJsonWithin true v).formula scope clause).sql = "") :
    Pruned scope clause (.array c.before) (.array c.after)
  | object {c : Cut (String × Json)} (names : ∀ e e', (e, some e') ∈ c → e'.1 = e.1)
    (kept : ∀ e e', (e, some e') ∈ c →
      Condition.Pruned scope clause (scope.qualify e.1) e.2 e'.2)
    (dropped : ∀ e, (e, none) ∈ c →
      ((Condition.ofJson e.2).formula scope clause (scope.qualify e.1)).sql = "") :
    Pruned scope clause (.object c.before) (.object c.after)

theorem Pruned.outline_eq {list : Bool} (h : Pruned scope clause v w) :
    ((ofJsonWithin list w).formula scope clause).outline
      = ((ofJsonWithin list v).formula scope clause).outline := by
  induction h generalizing list with
  | whole v => rfl
  | array _ dropped ih =>
    rw [formula_array, formula_array, Formula.outline, Formula.outline,
      Cut.outlines_after (fun v w hvw => ih v w hvw) dropped]
  | object names kept dropped =>
    rw [formula_object, formula_object, Formula.outline, Formula.outline,
      Cut.outlines_after (fun e e' he => ?_) dropped]
    rw [names e e' he]
    exact (kept e e' he).outline_eq

/-- What writes nothing where it stands has no say in the text of the filter around it. -/
theorem sql_of_pruned (h : Pruned scope clause v w) :
    (ofJson w).sql scope clause = (ofJson v).sql scope clause := by
  rw [sql, sql, Formula.sql_eq, Formula.sql_eq, ofJson, ofJson, h.outline_eq]

/-- A list loses an item, an object all it has, and so the list stays without parentheses. -/
theorem sql_of_pruned_role :
    let v := Json.object [("login", .array [.number (.int 1), .null, .number (.int 2)]),
      ("role", .object [("id", .null), ("name", .array [])])]
    let w := Json.object [("login", .array [.number (.int 1), .number (.int 2)]),
      ("role", .object [])]
    Pruned ⟨"user", false⟩ .rows v w
      ∧ (ofJson v).sql ⟨"user", false⟩ .rows = "(user.login = 1) OR (user.login = 2)" := by
  intro v w
  have hlogin : Condition.Pruned ⟨"user", false⟩ .rows "user.login"
      (.array [.number (.int 1), .null, .number (.int 2)])
      (.array [.number (.int 1), .number (.int 2)]) := by
    refine .array (c := [(.number (.int 1), some (.number (.int 1))), (.null, none),
      (.number (.int 2), some (.number (.int 2)))]) ?_ ?_
    · rintro v w (_ | ⟨_, _ | ⟨_, _ | ⟨_, ⟨⟩⟩⟩⟩) <;> exact .whole _
    · rintro v (_ | ⟨_, _ | ⟨_, _ | ⟨_, ⟨⟩⟩⟩⟩)
      rw [Condition.ofJson_null]
      rfl
  have hrole : Condition.Pruned ⟨"user", false⟩ .rows "user.role"
      (.object [("id", .null), ("name", .array [])]) (.object []) := by
    refine .object (c := [(("id", .null), none), (("name", .array []), none)]) ?_ ?_ ?_
    · rintro e e' (_ | ⟨_, _ | ⟨_, ⟨⟩⟩⟩)
    · rintro e e' (_ | ⟨_, _ | ⟨_, ⟨⟩⟩⟩)
    · rintro e (_ | ⟨_, _ | ⟨_, ⟨⟩⟩⟩)
      · rw [Condition.ofJson_null]
        rfl
      · rw [Condition.ofJson_array]
        rfl
  have h : Pruned ⟨"user", false⟩ .rows v w := by
    refine .object (c := [(("login", _), some ("login", _)), (("role", _), some ("role", _))])
      ?_ ?_ ?_
    · rintro e e' (_ | ⟨_, _ | ⟨_, ⟨⟩⟩⟩) <;> rfl
    · rintro e e' (_ | ⟨_, _ | ⟨_, ⟨⟩⟩⟩)
      · exact hlogin
      · exact hrole
    · rintro e (_ | ⟨_, _ | ⟨_, ⟨⟩⟩⟩)
  refine ⟨h, (sql_of_pruned h).symm.trans ?_⟩
  rw [ofJson, ofJsonWithin, sql]
  simp only [List.map, Condition.ofJson_object, Condition.ofJson_array, Condition.ofJson_number]
  decide

end Filter

end QuerySql
