import QuerySql.Distinct

/-!
# Formulas and predicates

A formula joins pieces of SQL by "and" and "or". `Formula.predicate` writes it: parts that write
nothing are left out, and an alternative next to other parts of a conjunction stands in
parentheses, since `AND` binds tighter than `OR`.
-/

namespace QuerySql

/-- Pieces of SQL joined by "and" and "or". -/
inductive Formula where
  | leaf (sql : String)
  | all (parts : List Formula)
  /-- All of the parts; of those that write the same, the first stands for all. -/
  | fields (parts : List Formula)
  | any (parts : List Formula)

/-- The text of a formula, and whether it is a bare chain of two or more alternatives. -/
structure Predicate where
  sql : String
  disjunction : Bool
  deriving DecidableEq, Repr

namespace Predicate

def ofSql (sql : String) : Predicate := ⟨sql, false⟩

def isEmpty (p : Predicate) : Bool := p.sql.isEmpty

def nonempty (parts : List Predicate) : List Predicate := parts.filter fun p => !p.isEmpty

def any (parts : List Predicate) : Predicate :=
  let parts := nonempty parts
  ⟨String.intercalate " OR " (parts.map sql), 1 < parts.length⟩

/-- The text of a part among others in a conjunction. -/
def sqlWithin (p : Predicate) : String :=
  if p.disjunction then "(" ++ p.sql ++ ")" else p.sql

def all (parts : List Predicate) : Predicate :=
  let parts := nonempty parts
  ofSql (String.intercalate " AND " (parts.map (if 1 < parts.length then sqlWithin else sql)))

end Predicate

namespace Formula

def nothing : Formula := all []

mutual

def predicate : Formula → Predicate
  | leaf sql => Predicate.ofSql sql
  | all parts => Predicate.all (predicates parts)
  | fields parts => Predicate.all (distinct (predicates parts))
  | any parts => Predicate.any (predicates parts)

def predicates : List Formula → List Predicate
  | [] => []
  | f :: rest => predicate f :: predicates rest

end

theorem predicates_eq_map (parts : List Formula) : predicates parts = parts.map predicate := by
  induction parts with
  | nil => rfl
  | cons f rest ih => simp [predicates, ih]

theorem predicate_all (parts : List Formula) :
    (all parts).predicate = Predicate.all (parts.map predicate) := by
  rw [predicate, predicates_eq_map]

theorem predicate_fields (parts : List Formula) :
    (fields parts).predicate = Predicate.all (distinct (parts.map predicate)) := by
  rw [predicate, predicates_eq_map]

theorem predicate_any (parts : List Formula) :
    (any parts).predicate = Predicate.any (parts.map predicate) := by
  rw [predicate, predicates_eq_map]

def sql (f : Formula) : String := f.predicate.sql

end Formula

end QuerySql
