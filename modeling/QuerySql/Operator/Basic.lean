import QuerySql.Json.Basic

/-!
# Operators

The operators that a string in a filter may call. A `Test` has a negated form of its own, so `$Not`
wraps exactly a test; in front of anything else it means "different from".
-/

namespace QuerySql

inductive Comparison where
  | lessThan
  | lessThanOrEqual
  | moreThan
  | moreThanOrEqual
  deriving DecidableEq, Repr

def Comparison.symbol : Comparison → String
  | lessThan => "<"
  | lessThanOrEqual => "<="
  | moreThan => ">"
  | moreThanOrEqual => ">="

/-- A function of all rows of a group. -/
inductive Aggregate where
  | max
  | min
  | sum
  | avg
  | count
  | total
  deriving DecidableEq, Repr

/-- The function applied to a column; the total counts rows, whatever the column. -/
def Aggregate.apply (column : String) : Aggregate → String
  | max => "MAX(" ++ column ++ ")"
  | min => "MIN(" ++ column ++ ")"
  | sum => "SUM(" ++ column ++ ")"
  | avg => "AVG(" ++ column ++ ")"
  | count => "COUNT(" ++ column ++ ")"
  | total => "COUNT(*)"

/-- A condition on one column that has a negated form of its own. -/
inductive Test where
  | like (pattern : Json)
  | iLike (pattern : Json)
  | compare (comparison : Comparison) (value : Json)
  | isNull
  | oneOf (items : List Json)

inductive Operator where
  | test (t : Test)
  | not (t : Test)
  | notEqual (value : Json)
  | between (low high : Json)
  | anyOf (items : List Json)
  /-- Several conditions on one column. -/
  | allOf (items : List Json)
  /-- A condition on an aggregate of the column. -/
  | aggregate (function : Aggregate) (argument : Json)

/-- What a string in a filter means. -/
inductive Expression where
  | literal (text : String)
  /-- A text that a backslash keeps from being read as an operator. -/
  | escaped (text : String)
  | operator (op : Operator)

def Test.arguments : Test → List Json
  | like v | iLike v | compare _ v => [v]
  | isNull => []
  | oneOf items => items

def Operator.arguments : Operator → List Json
  | test t | not t => t.arguments
  | notEqual v | aggregate _ v => [v]
  | between low high => [low, high]
  | anyOf items | allOf items => items

end QuerySql
