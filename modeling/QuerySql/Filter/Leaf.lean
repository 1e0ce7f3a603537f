import QuerySql.Filter.Condition

/-!
# The SQL of leaf conditions

Each leaf condition is written in parentheses around the text of its column. Values stand between
single quotes as they are; only a number that bounds a range stands bare. A test of membership in
no values writes nothing.
-/

namespace QuerySql

def singleQuoted (s : String) : String := "'" ++ s ++ "'"

/-- The condition that the column equals a text that stands as it is. -/
def equality (column right : String) : String := "(" ++ column ++ " = " ++ right ++ ")"

def equalities (column : String) (items : List Json) : List String :=
  items.map fun v => equality column (singleQuoted v.plain)

def boundText : Json → String
  | .number n => n.text
  | v => singleQuoted v.plain

namespace Test

def sql (column : String) : Test → String
  | like v | iLike v => "(LOWER(" ++ column ++ ") LIKE " ++ singleQuoted v.plain ++ ")"
  | compare c v => "(" ++ column ++ " " ++ c.symbol ++ " " ++ singleQuoted v.plain ++ ")"
  | isNull => equality column "''"
  | oneOf [] => ""
  | oneOf items => "(" ++ String.intercalate " OR " (equalities column items) ++ ")"

def negatedSql (column : String) : Test → String
  | like v | iLike v => "(" ++ column ++ " NOT LIKE " ++ singleQuoted v.plain ++ ")"
  | compare c v => "(" ++ column ++ " NOT " ++ c.symbol ++ " (" ++ v.plain ++ "))"
  | isNull => "(" ++ column ++ " IS NOT NULL)"
  | oneOf [] => ""
  | oneOf items =>
    "(" ++ column ++ " NOT IN ("
      ++ String.intercalate "," (items.map fun v => singleQuoted v.plain) ++ "))"

end Test

namespace Leaf

def sql (column : String) : Leaf → String
  | blank => equality column "''"
  | bare text => equality column text
  | literal text => equality column (singleQuoted text)
  | test t => t.sql column
  | not t => t.negatedSql column
  | notEqual v => "(" ++ column ++ " != " ++ singleQuoted v.plain ++ ")"
  | between low high =>
    "((" ++ column ++ " >= " ++ boundText low ++ ") AND (" ++ column ++ " <= "
      ++ boundText high ++ "))"
  | anyOf [] => ""
  | anyOf items => "(ANY(ARRAY[" ++ String.intercalate "," (equalities column items) ++ "]))"

end Leaf

end QuerySql
