import QuerySql.Proofs.Precedence
import QuerySql.Proofs.Sites

/-!
# Leaf conditions in the text of a filter

What is written of a filter are the texts of its leaf conditions, each once and in their order, but
for those that write nothing and for members of an object that write what a member before them
writes (`Filter.sql_eq_empty_or_exists_chain`). An `$And` stands for the conditions that it holds,
and on groups an aggregate for those of its argument. What the texts are is said of conditions, and
by equations of the values that these are read from (`ValueTexts`, `FilterTexts`).
-/

namespace QuerySql

theorem flatMap_filterMap {α β γ : Type} (g : α → Option β) (f : β → List γ) (xs : List α) :
    (xs.filterMap g).flatMap f = xs.flatMap fun x => (g x).elim [] f := by
  induction xs with
  | nil => rfl
  | cons x xs ih => cases h : g x <;> simp [h, ih]

/-- Elements may be dropped and mapped before or after, where the key decides which are dropped. -/
theorem filterMap_distinctBy {α β κ : Type} [DecidableEq κ] {key : α → κ} {key' : β → κ}
    {g : α → Option β} (hkey : ∀ x y, g x = some y → key' y = key x)
    (hnone : ∀ x y, key x = key y → g x = none → g y = none) (xs : List α) :
    (distinctBy key xs).filterMap g = distinctBy key' (xs.filterMap g) := by
  induction xs with
  | nil => rfl
  | cons x xs ih =>
    rw [distinctBy_cons]
    cases hx : g x with
    | none =>
      rw [List.filterMap_cons_none hx, List.filterMap_cons_none hx, ← ih, List.filterMap_filter]
      refine List.filterMap_congr fun y _ => ?_
      by_cases hy : key y = key x
      · simp [hy, hnone x y hy.symm hx]
      · simp [hy]
    | some z =>
      rw [List.filterMap_cons_some hx, List.filterMap_cons_some hx, distinctBy_cons, ← ih,
        List.filterMap_filter, List.filter_filterMap]
      refine congrArg (z :: ·) (List.filterMap_congr fun y _ => ?_)
      cases hy : g y with
      | none => simp
      | some w => simp [hkey x z hx, hkey y w hy, Option.filter]

namespace Formula

/-! ## What is written of a formula -/

theorem written_eq (f : Formula) : f.written = f.outline.elim [] Outline.pieces := by
  unfold written reading
  cases f.outline with
  | none => rfl
  | some t => exact Outline.pieces_chain t

theorem written_leaf (sql : String) : (leaf sql).written = [sql].filter (· ≠ "") := by
  rw [written_eq, outline]
  by_cases h : sql = "" <;> simp [h, Outline.pieces]

theorem elim_pieces_node {join : Outline → List Outline → Outline}
    (h : ∀ t ts, (join t ts).pieces = (t :: ts).flatMap Outline.pieces) (ts : List Outline) :
    (Outline.node join ts).elim [] Outline.pieces = ts.flatMap Outline.pieces := by
  cases ts with
  | nil => rfl
  | cons t ts => exact h t ts

theorem flatMap_pieces_outlines (parts : List Formula) :
    (outlines parts).flatMap Outline.pieces = parts.flatMap written := by
  rw [outlines_eq, flatMap_filterMap]
  exact List.flatMap_congr fun f _ => (written_eq f).symm

theorem written_all (parts : List Formula) : (all parts).written = parts.flatMap written := by
  rw [written_eq, outline, elim_pieces_node Outline.pieces_all, flatMap_pieces_outlines]

theorem written_any (parts : List Formula) : (any parts).written = parts.flatMap written := by
  rw [written_eq, outline, elim_pieces_node Outline.pieces_any, flatMap_pieces_outlines]

theorem outlines_distinctBy (parts : List Formula) :
    outlines (distinctBy predicate parts) = distinctBy Outline.predicate (outlines parts) := by
  rw [outlines_eq, outlines_eq]
  refine filterMap_distinctBy (fun f t h => ?_) (fun f g h hf => ?_) parts
  · rw [predicate_eq, h]
    rfl
  · have hs : g.sql = f.sql := congrArg Predicate.sql h.symm
    exact sql_eq_empty_iff.1 (hs.trans (sql_eq_empty_iff.2 hf))

theorem written_fields (parts : List Formula) :
    (fields parts).written = (distinctBy predicate parts).flatMap written := by
  rw [written_eq, outline, elim_pieces_node Outline.pieces_all, ← outlines_distinctBy,
    flatMap_pieces_outlines]

end Formula

/-! ## Leaf conditions -/

namespace Condition

mutual

/-- The texts of the leaf conditions on a column, in their order. Of members of an object that are
written alike the first stands for all. -/
def leafTexts (scope : Scope) (clause : Clause) (column : String) : Condition → List String
  | nothing => []
  | leaf l =>
    match clause with
    | .rows => [l.sql column]
    | .groups => []
  | aggregate f argument =>
    match clause with
    | .rows => (scope.aggregateOfTable f column).pieces
    | .groups => leafTexts scope .rows (f.apply column) argument
  | all items | any items => leafTextsOf scope clause column items
  | fields entries =>
    (distinctBy Prod.fst (memberTexts scope clause (lastPart column) entries)).flatMap Prod.snd

def leafTextsOf (scope : Scope) (clause : Clause) (column : String) :
    List Condition → List String
  | [] => []
  | c :: rest => leafTexts scope clause column c ++ leafTextsOf scope clause column rest

def memberTexts (scope : Scope) (clause : Clause) (table : String) :
    List (String × Condition) → List (Predicate × List String)
  | [] => []
  | (name, c) :: rest =>
    ((c.formula scope clause (table ++ "." ++ name)).predicate,
        leafTexts scope clause (table ++ "." ++ name) c)
      :: memberTexts scope clause table rest

end

variable {scope : Scope} {clause : Clause} {column : String}

theorem leafTextsOf_eq_flatMap (cs : List Condition) :
    leafTextsOf scope clause column cs = cs.flatMap (leafTexts scope clause column) := by
  induction cs with
  | nil => rfl
  | cons c rest ih => rw [leafTextsOf, ih, List.flatMap_cons]

theorem memberTexts_eq_map (table : String) (entries : List (String × Condition)) :
    memberTexts scope clause table entries = entries.map fun e =>
      ((e.2.formula scope clause (table ++ "." ++ e.1)).predicate,
        e.2.leafTexts scope clause (table ++ "." ++ e.1)) := by
  induction entries with
  | nil => rfl
  | cons e rest ih => rw [memberTexts, ih, List.map_cons]

theorem leafTexts_fields (entries : List (String × Condition)) :
    (fields entries).leafTexts scope clause column
      = (distinctBy (fun e => (e.2.formula scope clause (lastPart column ++ "." ++ e.1)).predicate)
          entries).flatMap fun e => e.2.leafTexts scope clause (lastPart column ++ "." ++ e.1) := by
  rw [leafTexts, memberTexts_eq_map, ← map_distinctBy, List.flatMap_map]

theorem flatMap_written {cs : List Condition}
    (h : ∀ c ∈ cs, (c.formula scope clause column).written
      = (c.leafTexts scope clause column).filter (· ≠ "")) :
    (formulas scope clause column cs).flatMap Formula.written
      = (leafTextsOf scope clause column cs).filter (· ≠ "") := by
  rw [formulas_eq_map, leafTextsOf_eq_flatMap, List.filter_flatMap, List.flatMap_map]
  exact List.flatMap_congr h

/-- What is written of a condition are the texts of its leaf conditions. -/
theorem written_formula (c : Condition) : (c.formula scope clause column).written
    = (c.leafTexts scope clause column).filter (· ≠ "") := by
  induction c generalizing clause column with
  | nothing => rfl
  | leaf l =>
    cases clause with
    | rows => exact Formula.written_leaf _
    | groups => rfl
  | aggregate f argument ih =>
    cases clause with
    | rows =>
      rw [formula, leafTexts, Scope.aggregateOfTable]
      split
      · rfl
      · exact Formula.written_leaf _
    | groups => exact ih
  | all items ih =>
    rw [formula, Formula.written_all, leafTexts]
    exact flatMap_written fun c hc => ih c hc
  | any items ih =>
    rw [formula, Formula.written_any, leafTexts]
    exact flatMap_written fun c hc => ih c hc
  | fields entries ih =>
    rw [formula, fieldFormulas_eq_map, Formula.written_fields, leafTexts_fields,
      List.filter_flatMap, ← map_distinctBy, List.flatMap_map]
    exact List.flatMap_congr fun e he => ih e (mem_of_mem_distinctBy he)

end Condition

/-! ## Leaf conditions of values -/

/-- The leaf of an operator that holds no further conditions. -/
def Operator.leaf? : Operator → Option Leaf
  | test t => some (.test t)
  | not t => some (.not t)
  | notEqual v => some (.notEqual v)
  | between low high => some (.between low high)
  | anyOf items => some (.anyOf items)
  | allOf _ | aggregate _ _ => none

/-- The leaf that a value of a column is. -/
inductive LeafValue : Json → Leaf → Prop where
  | bool (b : Bool) : LeafValue (.bool b) (.bare (Json.bool b).text)
  | number (n : Number) : LeafValue (.number n) (.bare n.text)
  | blank {s : String} (h : Condition.isBlankText s = true) : LeafValue (.string s) .blank
  | literal {s t : String} (hs : Condition.isBlankText s = false)
    (h : Condition.expressionOf s = .literal t ∨ Condition.expressionOf s = .escaped t) :
    LeafValue (.string s) (.literal t)
  | operator {s : String} {op : Operator} {l : Leaf}
    (h : Condition.expressionOf s = .operator op) (hl : op.leaf? = some l) :
    LeafValue (.string s) l

/-- Whether `texts` says what leaf texts a value of a column has. -/
structure ValueTexts (scope : Scope) (texts : Clause → String → Json → List String) : Prop where
  null (clause : Clause) (column : String) : texts clause column .null = []
  leaf {v : Json} {l : Leaf} (h : LeafValue v l) (column : String) :
    texts .rows column v = [l.sql column] ∧ texts .groups column v = []
  array (clause : Clause) (column : String) (items : List Json) :
    texts clause column (.array items) = items.flatMap (texts clause column)
  /-- Of members that are written alike the first stands for all. -/
  object (clause : Clause) (column : String) (entries : List (String × Json)) :
    texts clause column (.object entries)
      = (distinctBy (fun e => ((Condition.ofJson e.2).formula scope clause
            (lastPart column ++ "." ++ e.1)).predicate) entries).flatMap
          fun e => texts clause (lastPart column ++ "." ++ e.1) e.2
  allOf {s : String} {items : List Json}
    (h : Condition.expressionOf s = .operator (.allOf items)) (clause : Clause) (column : String) :
    texts clause column (.string s) = items.flatMap (texts clause column)
  /-- On rows the aggregate stands for itself, and on groups for its argument. -/
  aggregate {s : String} {f : Aggregate} {v : Json}
    (h : Condition.expressionOf s = .operator (.aggregate f v)) (column : String) :
    texts .rows column (.string s) = (scope.aggregateOfTable f column).pieces
      ∧ texts .groups column (.string s) = texts .rows (f.apply column) v

namespace Condition

theorem ofJson_of_leafValue {v : Json} {l : Leaf} (h : LeafValue v l) : ofJson v = .leaf l := by
  cases h with
  | bool b => exact ofJson_bool b
  | number n => exact ofJson_number n
  | blank h => exact ofJson_blank h
  | literal hs h => exact ofJson_literal hs h
  | @operator s op l h hl =>
    rw [ofJson_operator h]
    cases op <;> cases hl <;> rfl

theorem valueTexts (scope : Scope) :
    ValueTexts scope fun clause column v => (ofJson v).leafTexts scope clause column where
  null clause column := by
    rw [ofJson_null, leafTexts]
  leaf h column := by
    rw [ofJson_of_leafValue h, leafTexts, leafTexts]
    exact ⟨rfl, rfl⟩
  array clause column items := by
    rw [ofJson_array, leafTexts, leafTextsOf_eq_flatMap, List.flatMap_map]
  object clause column entries := by
    rw [ofJson_object, leafTexts_fields, ← map_distinctBy, List.flatMap_map]
  allOf h clause column := by
    rw [ofJson_operator h, ofOperator_allOf, leafTexts, leafTextsOf_eq_flatMap, List.flatMap_map]
  aggregate h column := by
    rw [ofJson_operator h, ofOperator, leafTexts, leafTexts]
    exact ⟨rfl, rfl⟩

end Condition

def Json.raw? : Json → Option String
  | bool b => some (Json.bool b).text
  | number n => some n.text
  | string s => some s
  | null | array _ | object _ => none

/-- Whether `texts` says what leaf texts a filter has, in a list and outside, where `values` says
what a value of a column has. -/
structure FilterTexts (scope : Scope) (texts : Bool → Clause → Json → List String)
    (values : Clause → String → Json → List String) : Prop where
  value : ValueTexts scope values
  null (list : Bool) (clause : Clause) : texts list clause .null = []
  scalar {v : Json} {sql : String} (h : v.raw? = some sql) :
    texts true .rows v = [sql] ∧ texts true .groups v = [] ∧ ∀ clause, texts false clause v = []
  array (list : Bool) (clause : Clause) (items : List Json) :
    texts list clause (.array items) = items.flatMap (texts true clause)
  object (list : Bool) (clause : Clause) (entries : List (String × Json)) :
    texts list clause (.object entries)
      = entries.flatMap fun e => values clause (scope.qualify e.1) e.2

namespace Filter

mutual

def leafTexts (scope : Scope) (clause : Clause) : Filter → List String
  | nothing => []
  | raw sql =>
    match clause with
    | .rows => [sql]
    | .groups => []
  | any alternatives => leafTextsOf scope clause alternatives
  | fields entries => entries.flatMap fun e => e.2.leafTexts scope clause (scope.qualify e.1)

def leafTextsOf (scope : Scope) (clause : Clause) : List Filter → List String
  | [] => []
  | f :: rest => leafTexts scope clause f ++ leafTextsOf scope clause rest

end

variable {scope : Scope} {clause : Clause}

theorem leafTextsOf_eq_flatMap (fs : List Filter) :
    leafTextsOf scope clause fs = fs.flatMap (leafTexts scope clause) := by
  induction fs with
  | nil => rfl
  | cons f rest ih => rw [leafTextsOf, ih, List.flatMap_cons]

theorem written_formula (f : Filter) :
    (f.formula scope clause).written = (f.leafTexts scope clause).filter (· ≠ "") := by
  induction f with
  | nothing => rfl
  | raw sql =>
    cases clause with
    | rows => exact Formula.written_leaf _
    | groups => rfl
  | any alternatives ih =>
    rw [formula, formulas_eq_map, Formula.written_any, leafTexts, leafTextsOf_eq_flatMap,
      List.filter_flatMap, List.flatMap_map]
    exact List.flatMap_congr fun f hf => ih f hf
  | fields entries =>
    rw [formula, Formula.written_all, leafTexts, List.filter_flatMap, List.flatMap_map]
    exact List.flatMap_congr fun e _ => e.2.written_formula

theorem filterTexts (scope : Scope) :
    FilterTexts scope (fun list clause v => (ofJsonWithin list v).leafTexts scope clause)
      fun clause column v => (Condition.ofJson v).leafTexts scope clause column where
  value := Condition.valueTexts scope
  null list clause := by
    rw [ofJsonWithin, leafTexts]
  scalar {v sql} h := by
    cases v <;> cases h <;> exact ⟨rfl, rfl, fun _ => rfl⟩
  array list clause items := by
    rw [ofJsonWithin, leafTexts, alternativesOf_eq_map, leafTextsOf_eq_flatMap, List.flatMap_map]
  object list clause entries := by
    rw [ofJsonWithin, leafTexts, List.flatMap_map]

/-- Nothing is lost, repeated or moved, and no connective dangles: the text of a filter is empty, or
a chain of what its leaf conditions write, as the value of the filter has them. -/
theorem sql_eq_empty_or_exists_chain (scope : Scope) (clause : Clause) (v : Json) :
    let texts := ((ofJson v).leafTexts scope clause).filter (· ≠ "")
    (((ofJson v).sql scope clause = "" ∧ texts = [])
      ∨ ∃ c : Chain, c.text = (ofJson v).sql scope clause ∧ c.pieces = texts)
    ∧ FilterTexts scope (fun list clause v => (ofJsonWithin list v).leafTexts scope clause)
        fun clause column v => (Condition.ofJson v).leafTexts scope clause column := by
  intro texts
  refine ⟨?_, filterTexts scope⟩
  have htext := Formula.text_reading ((ofJson v).formula scope clause)
  have hpieces : ((ofJson v).formula scope clause).written = texts := written_formula _
  unfold Formula.written at hpieces
  cases hr : ((ofJson v).formula scope clause).reading with
  | none =>
    rw [hr] at htext hpieces
    exact .inl ⟨htext.symm, hpieces.symm⟩
  | some c =>
    rw [hr] at htext hpieces
    exact .inr ⟨c, htext, hpieces⟩

end Filter

end QuerySql
