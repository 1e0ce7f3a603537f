import QuerySql.Entries

/-!
# TOML values and tables

The tree that a TOML document describes, and the rules by which its lines add to tables. A table
remembers how it came to be: written under a header, implied by a longer header, or implied by a
dotted key. A dotted key may only go through tables that are implied, and a key may only be added
to the kind of table that its form fits; no key is given twice.
-/

namespace QuerySql.Toml

/-- How a table came to be. -/
inductive Origin where
  /-- Written with a header of its own or in braces. -/
  | written
  /-- Implied by a longer header. -/
  | implied
  /-- Implied by a dotted key. -/
  | dotted
  deriving DecidableEq, Repr

/-- A value or a table of a document. -/
inductive Node where
  | integer (n : Int)
  /-- A string, a truth value or a number with a point. -/
  | scalar
  /-- A date or a time. -/
  | moment
  | array (items : List Node)
  /-- A table in braces, which nothing can be added to. -/
  | inline (entries : List (String × Node))
  | table (origin : Origin) (entries : List (String × Node))
  /-- A list of tables, each under a header in double brackets. -/
  | tables (elements : List (List (String × Node)))

abbrev Table := List (String × Node)

namespace Table

def erase (t : Table) (name : String) : Table := t.filter fun e => e.1 != name

/-- The table that a path leads to, changed by `change`, and what `change` gives besides. Tables
that are missing on the way are implied. A list of tables leads on to its last one. -/
def within {α : Type} (dottedKey : Bool) (change : Origin → Table → Option (Table × α)) :
    List String → Origin → Table → Option (Table × α)
  | [], origin, t => change origin t
  | name :: path, _, t =>
    match Entries.get? name t with
    | none => do
      let origin := if dottedKey then Origin.dotted else Origin.implied
      let (inner, a) ← within dottedKey change path origin []
      return (Entries.put name (.table origin inner) t, a)
    | some (.table origin inner) =>
      if dottedKey && origin = .written then none
      else do
        let (inner, a) ← within dottedKey change path origin inner
        return (Entries.put name (.table origin inner) t, a)
    | some (.tables elements) => do
      let (last, a) ← within dottedKey change path .written (elements.getLast?.getD [])
      return (Entries.put name (.tables (elements.dropLast ++ [last])) t, a)
    | some _ => none

/-- The entries with a new one under `name`; none if there is one. -/
def add? (t : Table) (name : String) (value : Node) : Option Table :=
  match Entries.get? name t with
  | none => some (Entries.put name value t)
  | some _ => none

/-- The table with the value under a key, whose last part is `name` and whose others are `path`.
Only a dotted key may end in a table that a dotted key implied, and such a key in no other. -/
def assign? (t : Table) (path : List String) (name : String) (value : Node) : Option Table := do
  let change (origin : Origin) (inner : Table) : Option (Table × Unit) :=
    if decide (origin = .dotted) == path.isEmpty then none
    else (inner.add? name value).map fun inner => (inner, ())
  let (t, _) ← within (!path.isEmpty) change path .written t
  return t

/-- The document without the table that a header opens, and that table's entries so far. A header
may open a table once; before that a longer header may have implied it. -/
def openTable? (t : Table) (path : List String) (name : String) : Option (Table × Table) :=
  let change (_ : Origin) (inner : Table) : Option (Table × Table) :=
    match Entries.get? name inner with
    | none => some (inner, [])
    | some (.table .implied entries) => some (inner.erase name, entries)
    | some _ => none
  within false change path .written t

/-- The document with room for one more table in a list of tables. -/
def openTables? (t : Table) (path : List String) (name : String) : Option Table := do
  let change (_ : Origin) (inner : Table) : Option (Table × Unit) :=
    match Entries.get? name inner with
    | none => some (Entries.put name (.tables []) inner, ())
    | some (.tables _) => some (inner, ())
    | some _ => none
  let (t, _) ← within false change path .written t
  return t

/-- The document with a finished table in its place. -/
def closeTable? (t : Table) (path : List String) (name : String) (entries : Table) :
    Option Table := do
  let change (_ : Origin) (inner : Table) : Option (Table × Unit) :=
    some (Entries.put name (.table .written entries) inner, ())
  let (t, _) ← within false change path .written t
  return t

def closeTables? (t : Table) (path : List String) (name : String) (entries : Table) :
    Option Table := do
  let change (_ : Origin) (inner : Table) : Option (Table × Unit) :=
    match Entries.get? name inner with
    | none => some (Entries.put name (.tables [entries]) inner, ())
    | some (.tables elements) =>
      some (Entries.put name (.tables (elements ++ [entries])) inner, ())
    | some _ => none
  let (t, _) ← within false change path .written t
  return t

end Table

end QuerySql.Toml
