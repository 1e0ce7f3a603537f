import QuerySql.Json.Basic

/-!
# Requests

A request says what to query from a table: which relations to join, which columns to select, what
to group and order by, which rows to keep, and which page of them. The trees keep the order in
which their names were written.
-/

namespace QuerySql

/-- What is asked of a name: a value, or a tree of further names. -/
inductive Asked (α : Type) where
  | leaf (value : α)
  | tree (entries : List (String × Asked α))

abbrev AskedTree (α : Type) := List (String × Asked α)

/-- A selection is a flag or a tree of selections. -/
abbrev Selection := Asked Bool

abbrev SelectionTree := AskedTree Bool

/-- A sorting is a token that may name a direction, or a tree of sortings. -/
abbrev Sorting := Asked String

abbrev SortingTree := AskedTree String

namespace Asked

/-- The entries below the name; none below a leaf. -/
def subtree {α : Type} : Asked α → AskedTree α
  | leaf _ => []
  | tree entries => entries

/-- Whether anything is asked: a false flag and an empty tree ask nothing. -/
def isSelected : Selection → Bool
  | leaf on => on
  | tree entries => !entries.isEmpty

def isTrue : Selection → Bool
  | leaf on => on
  | tree _ => false

end Asked

inductive Direction where
  | ascending
  | descending
  deriving DecidableEq, Repr

namespace Direction

def sql : Direction → String
  | ascending => "ASC"
  | descending => "DESC"

/-- The direction that a token names, in upper or lower case. -/
def ofToken? (token : String) : Option Direction :=
  let upper := token.toList.map Char.toUpper
  if upper = ['A', 'S', 'C'] then some ascending
  else if upper = ['D', 'E', 'S', 'C'] then some descending
  else none

end Direction

structure Request where
  relations : SelectionTree := []
  select : SelectionTree := []
  groups : SelectionTree := []
  orders : SortingTree := []
  filter : Option Json := none
  skip : Option Int64 := none
  offset : Option Int64 := none
  take : Option Int64 := none
  limit : Option Int64 := none
  page : Option Int64 := none

end QuerySql
