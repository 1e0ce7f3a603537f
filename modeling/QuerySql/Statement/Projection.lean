import QuerySql.Distinct
import QuerySql.Request.Basic
import QuerySql.Schema.Basic

/-!
# Projections

The columns that a request selects, each with its table and without repetition. A selected name is
a relation where the request also asks for that relation and the schema has it, and then stands for
columns of the related table: all of them for a flag, those of the tree for a tree. A relation that
is asked for and not listed in the selection contributes all its columns too; a false flag counts
as not listed, an empty tree as listed.
-/

namespace QuerySql

structure TableColumn where
  table : String
  column : String
  deriving DecidableEq, Repr

namespace TableColumn

/-- What stands between table and column in an alias. -/
def aliasSeparator : String := "_____"

def resultName (c : TableColumn) : String := c.table ++ aliasSeparator ++ c.column

def line (c : TableColumn) : String :=
  "\t" ++ Schema.qualified c.table c.column ++ " AS " ++ c.resultName

end TableColumn

/-- What the request asks of a relation, if it asks anything. -/
def AskedTree.asked? (relations : SelectionTree) (name : String) : Option Selection :=
  (Entries.get? name relations).filter Asked.isSelected

/-- Whether the name is listed; a false flag does not list it. -/
def AskedTree.lists (select : SelectionTree) (name : String) : Bool :=
  match Entries.get? name select with
  | none | some (.leaf false) => false
  | some _ => true

def AskedTree.flags (tree : SelectionTree) (name : String) : Bool :=
  match Entries.get? name tree with
  | some s => s.isTrue
  | none => false

theorem sizeOf_subtree_lt {name : String} {s : Selection} {tree : SelectionTree}
    (h : (name, s) ∈ tree) : sizeOf s.subtree < sizeOf tree := by
  have := List.sizeOf_lt_of_mem h
  simp only [Prod.mk.sizeOf_spec] at this
  cases s with
  | leaf on => simp only [Asked.subtree, List.nil.sizeOf_spec]; omega
  | tree entries => simp only [Asked.subtree, Asked.tree.sizeOf_spec] at *; omega

theorem mem_of_get? {α : Type} {name : String} {v : α} {entries : Entries α}
    (h : entries.get? name = some v) : (name, v) ∈ entries := by
  induction entries with
  | nil => cases h
  | cons e rest ih =>
    obtain ⟨n, w⟩ := e
    simp only [Entries.get?] at h
    split at h
    · rename_i hn
      cases h
      subst hn
      exact List.mem_cons_self
    · exact List.mem_cons_of_mem _ (ih h)

theorem sizeOf_subtree_lt_of_asked? {name : String} {s : Selection} {relations : SelectionTree}
    (h : relations.asked? name = some s) :
    sizeOf s.subtree < sizeOf relations := by
  obtain ⟨h, -⟩ := Option.filter_eq_some_iff.1 h
  exact sizeOf_subtree_lt (mem_of_get? h)

namespace Schema

def allColumns (s : Schema) : SelectionTree := s.columns.map fun name => (name, .leaf true)

/-- What a selection of a relation selects from the related table. -/
def selectionOf (child : Schema) : Selection → SelectionTree
  | .leaf _ => child.allColumns
  | .tree entries => entries

/-- The columns that are selected, with repetitions. -/
def selected (s : Schema) (select relations : SelectionTree) : List TableColumn :=
  (select.flatMap fun (name, selection) =>
    if selection.isSelected then
      match h : relations.asked? name, s.child? name with
      | some asked, some child =>
        have := sizeOf_subtree_lt_of_asked? h
        selected child (child.selectionOf selection) asked.subtree
      | _, _ => if s.hasColumn name || relations.flags name then [⟨s.table, name⟩] else []
    else [])
  ++ relations.attach.flatMap fun r =>
    if r.1.2.isSelected && !select.lists r.1.1 then
      match s.child? r.1.1 with
      | some child =>
        have := sizeOf_subtree_lt r.2
        selected child child.allColumns r.1.2.subtree
      | none => []
    else []
termination_by sizeOf relations

def projection (s : Schema) (select relations : SelectionTree) : List TableColumn :=
  distinct (s.selected select relations)

end Schema

def projectionText (columns : List TableColumn) : String :=
  String.intercalate ",\n" (columns.map TableColumn.line)

end QuerySql
