import QuerySql.Distinct
import QuerySql.Request.Basic
import QuerySql.Schema.Basic

/-!
# Order and groups

The columns that rows are ordered and grouped by, without repetition. A name belongs to the table
that the tree around it is named for, and at the top to the root table.
-/

namespace QuerySql

/-- What the leaves of a tree give, each in its table, with repetitions. -/
def AskedTree.items {α : Type} (give? : String → String → α → Option String) (table : String) :
    AskedTree α → List String
  | [] => []
  | (name, .leaf value) :: rest => (give? table name value).toList ++ items give? table rest
  | (name, .tree entries) :: rest => items give? name entries ++ items give? table rest

/-- A column and the direction that a token names, if it names one. -/
def orderItem? (table name token : String) : Option String :=
  (Direction.ofToken? token).map fun d => Schema.qualified table name ++ " " ++ d.sql

/-- The columns that rows are ordered by, with their directions. -/
def orderItems (table : String) (orders : SortingTree) : List String :=
  distinct (orders.items orderItem? table)

def groupItem? (table name : String) (on : Bool) : Option String :=
  if on then some (Schema.qualified table name) else none

/-- The columns that rows are grouped by. -/
def groupItems (table : String) (groups : SelectionTree) : List String :=
  distinct (groups.items groupItem? table)

end QuerySql
