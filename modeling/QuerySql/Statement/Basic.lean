/-!
# Statements

The parts of a statement, and the two statements that are written from them: `find` returns the
rows, `count` their number. A part that is absent is left out. Grouped rows are counted around the
whole statement up to its condition on groups; others by the distinct values of the primary key.
-/

namespace QuerySql

structure Statement where
  table : String
  /-- The primary key of the table. -/
  key : String
  joins : Option String := none
  select : Option String := none
  orders : Option String := none
  groups : Option String := none
  limits : Option String := none
  filter : Option String := none
  having : Option String := none
  deriving DecidableEq, Repr

namespace Statement

def isGrouped (s : Statement) : Bool := s.groups.isSome

/-- A clause on a line of its own behind its keyword, if it is there. -/
def clause (keyword : String) : Option String → String
  | none => ""
  | some body => "\n" ++ keyword ++ body

/-- What is selected: the columns on lines of their own, or all columns. -/
def selectText : Option String → String
  | none => " *"
  | some columns => "\n" ++ columns

/-- The statement up to its condition on groups. -/
def body (s : Statement) : String :=
  "SELECT" ++ selectText s.select ++ "\nFROM " ++ s.table ++ clause "" s.joins
    ++ clause "WHERE\n\t" s.filter ++ clause "GROUP BY\n\t" s.groups
    ++ clause "HAVING\n\t" s.having

def find (s : Statement) : String :=
  s.body ++ clause "ORDER BY\n\t" s.orders ++ "\n" ++ s.limits.getD "" ++ ";"

def count (s : Statement) : String :=
  if s.isGrouped then "SELECT\nCOUNT(*) AS total\nFROM (\n\t" ++ s.body ++ ") grouped;"
  else
    "SELECT\nCOUNT(DISTINCT " ++ s.table ++ "." ++ s.key ++ ") AS total\nFROM " ++ s.table
      ++ clause "" s.joins ++ clause "WHERE\n\t" s.filter ++ ";"

end Statement

end QuerySql
