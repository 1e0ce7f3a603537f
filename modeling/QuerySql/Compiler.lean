import QuerySql.Filter.Basic
import QuerySql.Settings
import QuerySql.Statement.Basic
import QuerySql.Statement.Join
import QuerySql.Statement.Order
import QuerySql.Statement.Page
import QuerySql.Statement.Projection

/-!
# The compiler

A compiler takes requests on one schema to statements. A part of the statement for which the
request asks nothing is absent; the condition on groups is there only where rows are grouped.
-/

namespace QuerySql

/-- A schema with the settings for requests on it. -/
structure Compiler where
  schema : Schema
  settings : Settings := {}

namespace Compiler

def present (text : String) : Option String := if text.isEmpty then none else some text

/-- The columns that a request selects; absent, for all columns, where it or the schema names
none. -/
def select (s : Schema) (r : Request) : Option String :=
  if s.columns.isEmpty || r.select.isEmpty then none
  else present (projectionText (s.projection r.select r.relations))

def compile (c : Compiler) (r : Request) : Statement :=
  let s := c.schema
  let groups := present (String.intercalate ", " (groupItems s.table r.groups))
  let scope : Scope := ⟨s.table, groups.isSome⟩
  let condition (clause : Clause) : Option String :=
    r.filter.bind fun v => present ((Filter.ofJson v).sql scope clause)
  { table := s.table
    key := s.key
    joins := present (String.intercalate "\n" (s.joinLines r.relations))
    select := select s r
    orders := present (String.intercalate ", " (orderItems s.table r.orders))
    groups
    limits := (Page.ofRequest? c.settings.defaultLimit r).map Page.sql
    filter := condition .rows
    having := if groups.isSome then condition .groups else none }

theorem present_eq_none {text : String} : present text = none ↔ text = "" := by
  unfold present
  split
  · rename_i h; simpa using h
  · rename_i h; simpa using h

theorem filter_compile (c : Compiler) (r : Request) :
    (c.compile r).filter = r.filter.bind fun v =>
      present ((Filter.ofJson v).sql ⟨c.schema.table, (c.compile r).isGrouped⟩ .rows) := rfl

/-- The statement that returns the rows. -/
def find (c : Compiler) (r : Request) : String := (c.compile r).find

/-- The statement that counts the rows. -/
def count (c : Compiler) (r : Request) : String := (c.compile r).count

end Compiler

end QuerySql
