import QuerySql.Statement.Order

/-!
# The leaves of a tree

A leaf of a tree is known by its path. Its table is the last name but one of the path, or the root
table. The items that rows are ordered and grouped by are those that the leaves give, in the order
in which the tree is written (`AskedTree.items_eq`).
-/

namespace QuerySql

/-- A value in a tree, with its name and the names around it from the outside in. -/
structure TreeLeaf (α : Type) where
  around : List String
  name : String
  value : α

namespace TreeLeaf

variable {α : Type}

/-- The table of the innermost name around the leaf, or the root table where there is none. -/
def table (root : String) (leaf : TreeLeaf α) : String := leaf.around.getLastD root

def column (root : String) (leaf : TreeLeaf α) : String := leaf.table root ++ "." ++ leaf.name

/-- The leaf with one more name around it. -/
def within (name : String) (leaf : TreeLeaf α) : TreeLeaf α :=
  { leaf with around := name :: leaf.around }

def item? (give? : String → String → α → Option String) (root : String) (leaf : TreeLeaf α) :
    Option String :=
  give? (leaf.table root) leaf.name leaf.value

theorem item?_within (give? : String → String → α → Option String) (root name : String)
    (leaf : TreeLeaf α) : (leaf.within name).item? give? root = leaf.item? give? name := by
  rw [item?, table, within, List.getLastD_cons]
  rfl

end TreeLeaf

namespace AskedTree

variable {α : Type}

/-- The leaves of a tree, in the order in which it is written. -/
def leaves : AskedTree α → List (TreeLeaf α)
  | [] => []
  | (name, .leaf value) :: rest => ⟨[], name, value⟩ :: leaves rest
  | (name, .tree entries) :: rest => (leaves entries).map (.within name) ++ leaves rest

theorem items_eq (give? : String → String → α → Option String) :
    ∀ (root : String) (tree : AskedTree α),
      tree.items give? root = (leaves tree).filterMap (TreeLeaf.item? give? root)
  | root, [] => by rw [items, leaves, List.filterMap_nil]
  | root, (name, .leaf value) :: rest => by
    rw [items, leaves, items_eq give? root rest, List.filterMap_cons]
    have hitem : TreeLeaf.item? give? root ⟨[], name, value⟩ = give? root name value := rfl
    rw [hitem]
    cases give? root name value <;> rfl
  | root, (name, .tree entries) :: rest => by
    have hwithin : TreeLeaf.item? give? root ∘ TreeLeaf.within name = TreeLeaf.item? give? name :=
      funext fun leaf => leaf.item?_within give? root name
    rw [items, leaves, items_eq give? name entries, items_eq give? root rest,
      List.filterMap_append, List.filterMap_map, hwithin]

end AskedTree

end QuerySql
