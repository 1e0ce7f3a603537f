import QuerySql.Filter.Formula
import QuerySql.Filter.Leaf

/-!
# Filters

A filter says which rows a statement keeps. It is compiled twice where rows are grouped: for the
clause on rows, to which aggregates contribute nothing then, and for the clause on groups, to which
only aggregates contribute. The members of an object are joined by "and", the items of a list by
"or". A name without a point or a parenthesis belongs to the root table; inside an object under a
column, names belong to the table that the last part of the column names.
-/

namespace QuerySql

/-- The two clauses that a filter is compiled for. -/
inductive Clause where
  /-- The condition on rows. -/
  | rows
  /-- The condition on groups. -/
  | groups
  deriving DecidableEq, Repr

/-- What the names in a filter refer to. -/
structure Scope where
  /-- The root table. -/
  table : String
  /-- Whether the rows are grouped. -/
  grouped : Bool
  deriving DecidableEq, Repr

/-- The column of a name at the root of a filter. -/
def Scope.qualify (scope : Scope) (name : String) : String :=
  if name.toList.any (fun c => c == '.' || c == '(') then name
  else scope.table ++ "." ++ name

/-- A column is left as it is: below the root every name has a point or a parenthesis. -/
theorem Scope.qualify_eq_self (scope : Scope) {column : String}
    (h : '.' ∈ column.toList ∨ '(' ∈ column.toList) : scope.qualify column = column := by
  refine if_pos (List.any_eq_true.2 ?_)
  rcases h with h | h
  · exact ⟨_, h, rfl⟩
  · exact ⟨_, h, rfl⟩

theorem Scope.qualify_member (scope : Scope) (table name : String) :
    scope.qualify (table ++ "." ++ name) = table ++ "." ++ name :=
  scope.qualify_eq_self (.inl (by simp))

theorem Scope.qualify_apply (scope : Scope) (f : Aggregate) (column : String) :
    scope.qualify (f.apply column) = f.apply column :=
  scope.qualify_eq_self (.inr (by cases f <;> simp [Aggregate.apply]))

theorem Scope.qualify_qualify (scope : Scope) (name : String) :
    scope.qualify (scope.qualify name) = scope.qualify name := by
  by_cases h : name.toList.any (fun c => c == '.' || c == '(') = true
  · have hself : scope.qualify name = name := if_pos h
    rw [hself, hself]
  · have hroot : scope.qualify name = scope.table ++ "." ++ name := if_neg h
    rw [hroot, scope.qualify_member]

/-- The part of a column behind its last point. -/
def lastPart (column : String) : String :=
  String.ofList (column.toList.reverse.takeWhile (· != '.')).reverse

/-- A formula that belongs to the clause on rows only. -/
def onRows (sql : String) : Clause → Formula
  | .rows => .leaf sql
  | .groups => .nothing

/-- An aggregate of a column as a condition on rows: the column equals it over the whole table. -/
def Scope.aggregateOfTable (scope : Scope) (f : Aggregate) (column : String) : Formula :=
  if scope.grouped then .nothing
  else
    .leaf ("(" ++ column ++ " = (SELECT " ++ f.apply column ++ " FROM " ++ scope.table ++ "))")

namespace Condition

mutual

def formula (scope : Scope) (clause : Clause) (column : String) : Condition → Formula
  | nothing => .nothing
  | leaf l => onRows (l.sql column) clause
  | aggregate f argument =>
    match clause with
    | .rows => scope.aggregateOfTable f column
    | .groups => formula scope .rows (f.apply column) argument
  | all items => .all (formulas scope clause column items)
  | any items => .any (formulas scope clause column items)
  | fields entries => .fields (fieldFormulas scope clause (lastPart column) entries)

def formulas (scope : Scope) (clause : Clause) (column : String) : List Condition → List Formula
  | [] => []
  | c :: rest => formula scope clause column c :: formulas scope clause column rest

def fieldFormulas (scope : Scope) (clause : Clause) (table : String) :
    List (String × Condition) → List Formula
  | [] => []
  | (name, c) :: rest =>
    formula scope clause (table ++ "." ++ name) c :: fieldFormulas scope clause table rest

end

variable (scope : Scope) (clause : Clause) (column : String)

theorem formulas_eq_map (cs : List Condition) :
    formulas scope clause column cs = cs.map (formula scope clause column) := by
  induction cs with
  | nil => rfl
  | cons c rest ih => rw [formulas, ih, List.map_cons]

theorem fieldFormulas_eq_map (table : String) (entries : List (String × Condition)) :
    fieldFormulas scope clause table entries
      = entries.map fun e => e.2.formula scope clause (table ++ "." ++ e.1) := by
  induction entries with
  | nil => rfl
  | cons e rest ih => rw [fieldFormulas, ih, List.map_cons]

theorem formula_array (items : List Json) :
    (ofJson (.array items)).formula scope clause column
      = .any (items.map fun v => (ofJson v).formula scope clause column) := by
  rw [ofJson_array, formula, formulas_eq_map, List.map_map]
  rfl

theorem formula_object (entries : List (String × Json)) :
    (ofJson (.object entries)).formula scope clause column
      = .fields (entries.map fun e =>
          (ofJson e.2).formula scope clause (lastPart column ++ "." ++ e.1)) := by
  rw [ofJson_object, formula, fieldFormulas_eq_map, List.map_map]
  rfl

theorem formula_allOf {s : String} {items : List Json}
    (h : expressionOf s = .operator (.allOf items)) :
    (ofJson (.string s)).formula scope clause column
      = .all (items.map fun v => (ofJson v).formula scope clause column) := by
  rw [ofJson_operator h, ofOperator_allOf, formula, formulas_eq_map, List.map_map]
  rfl

end Condition

/-- Which rows a statement keeps. -/
inductive Filter where
  | nothing
  /-- A piece of SQL as it is. -/
  | raw (sql : String)
  /-- Any of several filters. -/
  | any (alternatives : List Filter)
  /-- Conditions on the names of the root. -/
  | fields (entries : List (String × Condition))

namespace Filter

mutual

/-- The filter that a value stands for. Scalars are pieces of SQL inside a list and nothing
elsewhere. -/
def ofJsonWithin (list : Bool) : Json → Filter
  | .null => nothing
  | .bool b => if list then raw (Json.bool b).text else nothing
  | .number n => if list then raw n.text else nothing
  | .string s => if list then raw s else nothing
  | .array items => any (alternativesOf items)
  | .object entries => fields (entries.map fun e => (e.1, Condition.ofJson e.2))

def alternativesOf : List Json → List Filter
  | [] => []
  | v :: rest => ofJsonWithin true v :: alternativesOf rest

end

def ofJson (v : Json) : Filter := ofJsonWithin false v

mutual

def formula (scope : Scope) (clause : Clause) : Filter → Formula
  | nothing => .nothing
  | raw sql => onRows sql clause
  | any alternatives => .any (formulas scope clause alternatives)
  | fields entries =>
    .all (entries.map fun e => e.2.formula scope clause (scope.qualify e.1))

def formulas (scope : Scope) (clause : Clause) : List Filter → List Formula
  | [] => []
  | f :: rest => formula scope clause f :: formulas scope clause rest

end

theorem alternativesOf_eq_map (items : List Json) :
    alternativesOf items = items.map (ofJsonWithin true) := by
  induction items with
  | nil => rfl
  | cons v rest ih => rw [alternativesOf, ih, List.map_cons]

theorem formulas_eq_map (scope : Scope) (clause : Clause) (fs : List Filter) :
    formulas scope clause fs = fs.map (formula scope clause) := by
  induction fs with
  | nil => rfl
  | cons f rest ih => rw [formulas, ih, List.map_cons]

theorem formula_array (scope : Scope) (clause : Clause) (list : Bool) (items : List Json) :
    (ofJsonWithin list (.array items)).formula scope clause
      = .any (items.map fun v => (ofJsonWithin true v).formula scope clause) := by
  rw [ofJsonWithin, formula, formulas_eq_map, alternativesOf_eq_map, List.map_map]
  rfl

theorem formula_object (scope : Scope) (clause : Clause) (list : Bool)
    (entries : List (String × Json)) :
    (ofJsonWithin list (.object entries)).formula scope clause
      = .all (entries.map fun e =>
          (Condition.ofJson e.2).formula scope clause (scope.qualify e.1)) := by
  rw [ofJsonWithin, formula, List.map_map]
  rfl

def sql (scope : Scope) (clause : Clause) (f : Filter) : String := (f.formula scope clause).sql

end Filter

end QuerySql
