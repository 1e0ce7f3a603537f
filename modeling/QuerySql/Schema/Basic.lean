import QuerySql.SortedEntries

/-!
# Schemas

A schema describes a table: its columns, how it joins onto the table it is reached from, and the
relations reachable from it, each under a name and in the order of their names. A relation whose
schema says nothing at all counts as absent.
-/

namespace QuerySql

/-- Which of two joined tables holds the foreign key. -/
inductive RelationKind where
  /-- The related table holds it. -/
  | oneToMany
  /-- The table that the relation is reached from holds it. -/
  | manyToOne
  deriving DecidableEq, Repr

structure Schema where
  table : String
  kind : Option RelationKind
  /-- The table that this one is joined onto. -/
  referencedTable : Option String
  /-- The column that holds the foreign key. -/
  referencedColumn : Option String
  /-- The column that holds the primary key, where it is declared. -/
  primaryColumn : Option String
  columns : List String
  relations : List (String × Schema)

namespace Schema

def ofTable (table : String) : Schema := ⟨table, none, none, none, none, [], []⟩

instance : Inhabited Schema := ⟨ofTable ""⟩

def withColumns (s : Schema) (names : List String) : Schema :=
  { s with columns := s.columns ++ names }

/-- The schema with a relation under a name, in place of any other under that name. -/
def withRelation (s : Schema) (name : String) (child : Schema) : Schema :=
  { s with relations := SortedEntries.insert name child s.relations }

/-- The schema with the way in which it joins onto a table. -/
def joined (s : Schema) (kind : RelationKind) (table column primary : String) : Schema :=
  { s with
    kind := some kind
    referencedTable := some table
    referencedColumn := some column
    primaryColumn := some primary }

def isEmpty (s : Schema) : Bool := s.table.isEmpty && s.columns.isEmpty && s.relations.isEmpty

def hasColumn (s : Schema) (name : String) : Bool := s.columns.elem name

/-- The schema of a relation, if there is one that says something. -/
def child? (s : Schema) (name : String) : Option Schema :=
  (Entries.get? name s.relations).filter fun child => !child.isEmpty

/-- The primary key where none is declared. -/
def defaultKey : String := "id"

def key (s : Schema) : String := s.primaryColumn.getD defaultKey

def qualified (table column : String) : String := table ++ "." ++ column

/-- The condition that joins the table onto the one it is reached from: the foreign key, on
whichever side it is, equals the primary key of the other side. -/
def joinCondition (s : Schema) : String :=
  let foreign := s.referencedColumn.getD ""
  let other := s.referencedTable.getD ""
  match s.kind with
  | some .oneToMany => qualified s.table foreign ++ " = " ++ qualified other s.key
  | _ => qualified other foreign ++ " = " ++ qualified s.table s.key

inductive Step where
  | columns (names : List String)
  | relation (name : String) (child : Schema)
  | joined (kind : RelationKind) (table column primary : String)

def Step.apply (s : Schema) : Step → Schema
  | columns names => s.withColumns names
  | relation name child => s.withRelation name child
  | joined kind table column primary => s.joined kind table column primary

def build (table : String) (steps : List Step) : Schema := steps.foldl Step.apply (ofTable table)

end Schema

end QuerySql
