import QuerySql.Request.Basic
import QuerySql.Schema.Basic

/-!
# Joins

The relations that a request reaches from a schema, in the order in which the request names them,
each before the ones below it. A relation is reached where the schema has it and the request
selects it; the relations below it only where it is selected by a tree.
-/

namespace QuerySql

namespace Schema

/-- The relations reached, each with the names that lead to it. -/
def reached (path : List String) (s : Schema) : SelectionTree → List (List String × Schema)
  | [] => []
  | (name, .leaf on) :: rest =>
    (if on then (s.child? name).toList.map fun child => (path ++ [name], child) else [])
      ++ reached path s rest
  | (name, .tree entries) :: rest =>
    (match s.child? name with
      | some child =>
        if entries.isEmpty then []
        else (path ++ [name], child) :: reached (path ++ [name]) child entries
      | none => [])
      ++ reached path s rest

def joinLine (s : Schema) : String := "LEFT JOIN " ++ s.table ++ " ON " ++ s.joinCondition

def joinLines (s : Schema) (relations : SelectionTree) : List String :=
  (s.reached [] relations).map fun r => r.2.joinLine

end Schema

end QuerySql
