import Mathlib
import QuerySql.Filter.Basic

/-!
# The two clauses of a grouped statement

Where rows are grouped, the condition on rows does not depend on the aggregates of a filter, and the
condition on groups depends on nothing else (`Filter.clauses_separate`). Both are statements about
two filters of one shape. `RelatedValue R` and `RelatedFilter R S` say that two values differ at
most in leaves that `R` relates under a column and `S` in a list of filters; a string that holds
several conditions (`$And`) is no leaf, but compared condition by condition. The induction over the
shape is done once, in `Condition.predicate_eq_of_related`; the two halves differ in what is asked
of the leaves.
-/

namespace QuerySql

/-- Two values of one shape under a column, with related leaves. -/
inductive RelatedValue (R : Json → Json → Prop) : Json → Json → Prop where
  | leaf {v w : Json} (h : R v w) : RelatedValue R v w
  | allOf {s t : String} {items items' : List Json}
      (hs : Condition.expressionOf s = .operator (.allOf items))
      (ht : Condition.expressionOf t = .operator (.allOf items'))
      (each : List.Forall₂ (RelatedValue R) items items') : RelatedValue R (.string s) (.string t)
  | array {items items' : List Json} (each : List.Forall₂ (RelatedValue R) items items') :
      RelatedValue R (.array items) (.array items')
  | object {entries entries' : List (String × Json)}
      (names : entries.map Prod.fst = entries'.map Prod.fst)
      (each : List.Forall₂ (RelatedValue R) (entries.map Prod.snd) (entries'.map Prod.snd)) :
      RelatedValue R (.object entries) (.object entries')

inductive RelatedFilter (R S : Json → Json → Prop) : Json → Json → Prop where
  | leaf {v w : Json} (h : S v w) : RelatedFilter R S v w
  | array {items items' : List Json} (each : List.Forall₂ (RelatedFilter R S) items items') :
      RelatedFilter R S (.array items) (.array items')
  | object {entries entries' : List (String × Json)}
      (names : entries.map Prod.fst = entries'.map Prod.fst)
      (each : List.Forall₂ (RelatedValue R) (entries.map Prod.snd) (entries'.map Prod.snd)) :
      RelatedFilter R S (.object entries) (.object entries')

/-- The strings that are aggregates. -/
inductive AggregateLeaf : Json → Prop where
  | string {s : String} {f : Aggregate} {arg : Json}
      (h : Condition.expressionOf s = .operator (.aggregate f arg)) : AggregateLeaf (.string s)

/-- The scalars that are neither an aggregate nor several conditions. -/
inductive PlainLeaf : Json → Prop where
  | null : PlainLeaf .null
  | bool (b : Bool) : PlainLeaf (.bool b)
  | number (n : Number) : PlainLeaf (.number n)
  | string {s : String} (ha : ∀ f arg, Condition.expressionOf s ≠ .operator (.aggregate f arg))
      (hl : ∀ items, Condition.expressionOf s ≠ .operator (.allOf items)) : PlainLeaf (.string s)

inductive ScalarLeaf : Json → Prop where
  | null : ScalarLeaf .null
  | bool (b : Bool) : ScalarLeaf (.bool b)
  | number (n : Number) : ScalarLeaf (.number n)
  | string (s : String) : ScalarLeaf (.string s)

/-- The leaves are equal, or aggregates both. -/
def SameToRows (v w : Json) : Prop := v = w ∨ AggregateLeaf v ∧ AggregateLeaf w

/-- The leaves are equal, or neither is an aggregate nor several conditions. -/
def SameToGroups (v w : Json) : Prop := v = w ∨ PlainLeaf v ∧ PlainLeaf w

/-! ## One shape, one predicate -/

section

variable {α γ : Type} {R : α → α → Prop} {f : α → γ}

theorem map_eq_map_of_forall₂ {xs ys : List α} (h : List.Forall₂ R xs ys)
    (hf : ∀ x ∈ xs, ∀ y, R x y → f x = f y) : xs.map f = ys.map f := by
  induction h with
  | nil => rfl
  | cons hxy _ ih =>
    rw [List.map_cons, List.map_cons, hf _ List.mem_cons_self _ hxy,
      ih fun x hx => hf x (List.mem_cons_of_mem _ hx)]

theorem map_entries_eq {f : String × α → γ} {es es' : List (String × α)}
    (names : es.map Prod.fst = es'.map Prod.fst)
    (each : List.Forall₂ R (es.map Prod.snd) (es'.map Prod.snd))
    (hf : ∀ e ∈ es, ∀ y, R e.2 y → f e = f (e.1, y)) : es.map f = es'.map f := by
  induction es generalizing es' with
  | nil =>
    cases es' with
    | nil => rfl
    | cons e' rest' => cases names
  | cons e rest ih =>
    cases es' with
    | nil => cases names
    | cons e' rest' =>
      obtain ⟨hn, names⟩ := List.cons.inj names
      cases each with
      | cons hv each =>
        have hr := ih names each fun e he => hf e (List.mem_cons_of_mem _ he)
        rw [List.map_cons, List.map_cons, hr, hf e List.mem_cons_self _ hv, hn]

end

namespace Condition

variable {scope : Scope} {clause : Clause} {R : Json → Json → Prop} {v w : Json}

theorem predicate_eq_of_related
    (hR : ∀ {v w}, R v w → ∀ column, ((ofJson v).formula scope clause column).predicate
      = ((ofJson w).formula scope clause column).predicate)
    (h : RelatedValue R v w) (column : String) :
    ((ofJson v).formula scope clause column).predicate
      = ((ofJson w).formula scope clause column).predicate := by
  induction v using ofJson_induction generalizing w column with
  | null | bool | number =>
    cases h with
    | leaf h => exact hR h column
  | string s ih =>
    cases h with
    | leaf h => exact hR h column
    | allOf hs ht each =>
      rw [formula_allOf _ _ _ hs, formula_allOf _ _ _ ht, Formula.predicate_all,
        Formula.predicate_all, List.map_map, List.map_map]
      exact congrArg _ (map_eq_map_of_forall₂ each fun v hv w hvw => ih _ hs v hv hvw column)
  | array items ih =>
    cases h with
    | leaf h => exact hR h column
    | array each =>
      rw [formula_array, formula_array, Formula.predicate_any, Formula.predicate_any,
        List.map_map, List.map_map]
      exact congrArg _ (map_eq_map_of_forall₂ each fun v hv w hvw => ih v hv hvw column)
  | object entries ih =>
    cases h with
    | leaf h => exact hR h column
    | object names each =>
      rw [formula_object, formula_object, Formula.predicate_fields, Formula.predicate_fields,
        List.map_map, List.map_map]
      exact congrArg (fun ps => Predicate.all (distinct ps))
        (map_entries_eq names each fun e he w hvw => ih e he hvw _)

end Condition

/-! ## The leaves -/

section

open Condition

variable {v : Json}

theorem AggregateLeaf.formula_rows (h : AggregateLeaf v) {scope : Scope}
    (hg : scope.grouped = true) (column : String) :
    (ofJson v).formula scope .rows column = .nothing := by
  cases h with
  | @string s f arg h =>
    rw [ofJson_operator h]
    show scope.aggregateOfTable f column = .nothing
    rw [Scope.aggregateOfTable, if_pos hg]

theorem PlainLeaf.formula_groups (h : PlainLeaf v) (scope : Scope) (column : String) :
    (ofJson v).formula scope .groups column = .nothing := by
  cases h with
  | null => rw [ofJson_null]; rfl
  | bool b => rw [ofJson_bool]; rfl
  | number n => rw [ofJson_number]; rfl
  | @string s ha hl =>
    by_cases h : ∃ op, expressionOf s = .operator op
    · obtain ⟨op, h⟩ := h
      rw [ofJson_operator h]
      cases op with
      | allOf items => exact absurd h (hl items)
      | aggregate f arg => exact absurd h (ha f arg)
      | test | not | notEqual | between | anyOf => rfl
    · push Not at h
      rcases ofJson_text h with hl | ⟨t, hl⟩
      · rw [hl]; rfl
      · rw [hl]; rfl

theorem ScalarLeaf.formula_groups (h : ScalarLeaf v) (scope : Scope) (list : Bool) :
    (Filter.ofJsonWithin list v).formula scope .groups = .nothing := by
  cases h <;> cases list <;> rfl

end

namespace Filter

variable {scope : Scope} {clause : Clause} {R S : Json → Json → Prop} {v w : Json}

theorem predicate_eq_of_related
    (hR : ∀ {v w}, R v w → ∀ column, ((Condition.ofJson v).formula scope clause column).predicate
      = ((Condition.ofJson w).formula scope clause column).predicate)
    (hS : ∀ {v w}, S v w → ∀ list, ((ofJsonWithin list v).formula scope clause).predicate
      = ((ofJsonWithin list w).formula scope clause).predicate) :
    ∀ {v w : Json} (list : Bool), RelatedFilter R S v w →
      ((ofJsonWithin list v).formula scope clause).predicate
        = ((ofJsonWithin list w).formula scope clause).predicate
  | _, _, list, .leaf h => hS h list
  | .array items, .array items', list, .array each => by
    rw [formula_array, formula_array, Formula.predicate_any, Formula.predicate_any,
      List.map_map, List.map_map]
    exact congrArg _ (map_eq_map_of_forall₂ each fun v hv w hvw =>
      predicate_eq_of_related hR hS true hvw)
  | .object entries, .object entries', list, .object names each => by
    rw [formula_object, formula_object, Formula.predicate_all, Formula.predicate_all,
      List.map_map, List.map_map]
    exact congrArg _ (map_entries_eq names each fun e he w hvw =>
      Condition.predicate_eq_of_related hR hvw _)

/-- Where rows are grouped, the condition on rows stays the same under a change of aggregates into
aggregates, and the condition on groups under a change of all leaves but those. -/
theorem clauses_separate (scope : Scope) (v w : Json) :
    (scope.grouped = true → RelatedFilter SameToRows Eq v w →
        (ofJson v).sql scope .rows = (ofJson w).sql scope .rows)
      ∧ (RelatedFilter SameToGroups (fun v w => ScalarLeaf v ∧ ScalarLeaf w) v w →
          (ofJson v).sql scope .groups = (ofJson w).sql scope .groups) := by
  constructor
  · intro hg h
    refine congrArg Predicate.sql (predicate_eq_of_related ?_ ?_ false h)
    · rintro v w (rfl | ⟨hv, hw⟩) column
      · rfl
      · rw [hv.formula_rows hg, hw.formula_rows hg]
    · rintro v w rfl list
      rfl
  · intro h
    refine congrArg Predicate.sql (predicate_eq_of_related ?_ ?_ false h)
    · rintro v w (rfl | ⟨hv, hw⟩) column
      · rfl
      · rw [hv.formula_groups, hw.formula_groups]
    · rintro v w ⟨hv, hw⟩ list
      rw [hv.formula_groups, hw.formula_groups]

/-- A change of the aggregate is not seen by rows, and a change of the other condition not by
groups. -/
theorem clauses_separate_price :
    let v := Json.object [("price", .string "$Max(7)"), ("id", .string "$In(1,2)")]
    let w := Json.object [("price", .string "$Min(8)"), ("id", .string "$In(1,2)")]
    let u := Json.object [("price", .string "$Max(7)"), ("id", .null)]
    (ofJson v).sql ⟨"order", true⟩ .rows = (ofJson w).sql ⟨"order", true⟩ .rows
      ∧ (ofJson v).sql ⟨"order", true⟩ .groups = (ofJson u).sql ⟨"order", true⟩ .groups := by
  intro v w u
  have hmax : Condition.expressionOf "$Max(7)"
      = .operator (.aggregate .max (.number (.int 7))) := by cbv
  have hmin : Condition.expressionOf "$Min(8)"
      = .operator (.aggregate .min (.number (.int 8))) := by cbv
  have hin : Condition.expressionOf "$In(1,2)" = .operator (.test (.oneOf [.string "1,2"])) := by
    cbv
  have hp : PlainLeaf (.string "$In(1,2)") := by
    refine .string (fun f arg h => ?_) fun items h => ?_
    · rw [hin] at h; cases h
    · rw [hin] at h; cases h
  have hrows : RelatedFilter SameToRows Eq v w :=
    .object rfl (.cons (.leaf (.inr ⟨.string hmax, .string hmin⟩)) (.cons (.leaf (.inl rfl)) .nil))
  have hgroups : RelatedFilter SameToGroups (fun v w => ScalarLeaf v ∧ ScalarLeaf w) v u :=
    .object rfl (.cons (.leaf (.inl rfl)) (.cons (.leaf (.inr ⟨hp, .null⟩)) .nil))
  exact ⟨(clauses_separate ⟨"order", true⟩ v w).1 rfl hrows,
    (clauses_separate ⟨"order", true⟩ v u).2 hgroups⟩

end Filter

end QuerySql
