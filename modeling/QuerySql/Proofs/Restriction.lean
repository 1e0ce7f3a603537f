import Mathlib
import QuerySql.Compiler
import QuerySql.Proofs.JoinOrder

/-!
# What a request reads of a schema

A request reads the relations at the paths that it asks for, and no others. Where every table of a
schema has a name, the schema without the other relations (`Schema.restrict`) has the same joins
and the same projections, so the same statements are written from it (`Compiler.compile_restrict`).
The names matter: a relation whose table has none counts as absent once nothing is left of it.
-/

namespace QuerySql

namespace Schema

/-- Whether the table has a name, and so on below it. -/
inductive Named : Schema → Prop where
  | mk {s : Schema} (table : s.table ≠ "")
      (below : ∀ {name child}, (name, child) ∈ s.relations → Named child) : Named s

mutual

/-- The schema with those relations only that the tree asks for, and so on below them. -/
def restrict (tree : SelectionTree) : Schema → Schema
  | ⟨table, kind, referencedTable, referencedColumn, primaryColumn, columns, relations⟩ =>
    ⟨table, kind, referencedTable, referencedColumn, primaryColumn, columns,
      restrictRelations tree relations⟩

def restrictRelations (tree : SelectionTree) : List (String × Schema) → List (String × Schema)
  | [] => []
  | (name, child) :: rest =>
    match tree.asked? name with
    | some asked => (name, restrict asked.subtree child) :: restrictRelations tree rest
    | none => restrictRelations tree rest

end

variable {s child : Schema} {tree select : SelectionTree} {name : String} {path : List String}

/-! ## Relations by name -/

theorem Named.child? (h : s.Named) (hc : s.child? name = some child) : child.Named := by
  cases h with
  | mk table below => exact below (mem_of_get? (Option.filter_eq_some_iff.1 hc).1)

theorem isEmpty_of_table_ne (h : s.table ≠ "") : s.isEmpty = false := by
  simp [isEmpty, h]

theorem Named.child?_eq_get? (h : s.Named) : s.child? name = Entries.get? name s.relations := by
  rw [Schema.child?]
  cases hget : Entries.get? name s.relations with
  | none => rfl
  | some child =>
    cases h with
    | mk _ below =>
      cases below (mem_of_get? hget) with
      | mk table _ => simp [isEmpty_of_table_ne table]

theorem restrict_eq (tree : SelectionTree) (s : Schema) :
    s.restrict tree = { s with relations := restrictRelations tree s.relations } := by
  cases s
  rfl

theorem table_restrict (tree : SelectionTree) (s : Schema) : (s.restrict tree).table = s.table := by
  rw [restrict_eq]

theorem columns_restrict (tree : SelectionTree) (s : Schema) :
    (s.restrict tree).columns = s.columns := by
  rw [restrict_eq]

theorem key_restrict (tree : SelectionTree) (s : Schema) : (s.restrict tree).key = s.key := by
  rw [restrict_eq]
  rfl

theorem get?_restrictRelations (tree : SelectionTree) (name : String)
    (relations : List (String × Schema)) :
    Entries.get? name (restrictRelations tree relations)
      = (tree.asked? name).bind fun asked =>
          (Entries.get? name relations).map (restrict asked.subtree) := by
  induction relations with
  | nil => cases h : tree.asked? name <;> rfl
  | cons e rest ih =>
    obtain ⟨n, child⟩ := e
    rw [restrictRelations, Entries.get?]
    by_cases hn : n = name
    · subst hn
      cases h : tree.asked? n with
      | none => simpa [h] using ih
      | some asked => simp [Entries.get?]
    · rw [if_neg hn, ← ih]
      cases h : tree.asked? n with
      | none => rfl
      | some asked => exact if_neg hn

theorem exists_of_mem_restrictRelations {relations : List (String × Schema)}
    (h : (name, child) ∈ restrictRelations tree relations) :
    ∃ whole asked, (name, whole) ∈ relations ∧ tree.asked? name = some asked
      ∧ child = whole.restrict asked.subtree := by
  induction relations with
  | nil => cases h
  | cons e rest ih =>
    obtain ⟨n, whole⟩ := e
    rw [restrictRelations] at h
    cases hn : tree.asked? n with
    | none =>
      rw [hn] at h
      obtain ⟨w, asked, hm, h⟩ := ih h
      exact ⟨w, asked, List.mem_cons_of_mem _ hm, h⟩
    | some asked =>
      rw [hn] at h
      rcases List.mem_cons.1 h with he | h
      · cases he
        exact ⟨whole, asked, List.mem_cons_self, hn, rfl⟩
      · obtain ⟨w, asked', hm, h⟩ := ih h
        exact ⟨w, asked', List.mem_cons_of_mem _ hm, h⟩

theorem Named.restrict (h : s.Named) (tree : SelectionTree) : (s.restrict tree).Named := by
  induction h generalizing tree with
  | @mk s table _ ih =>
    rw [restrict_eq]
    refine .mk table fun hm => ?_
    obtain ⟨whole, asked, hw, -, rfl⟩ := exists_of_mem_restrictRelations hm
    exact ih hw asked.subtree

theorem child?_restrict (h : s.Named) (tree : SelectionTree) (name : String) :
    (s.restrict tree).child? name
      = (tree.asked? name).bind fun asked => (s.child? name).map (restrict asked.subtree) := by
  rw [(h.restrict tree).child?_eq_get?, h.child?_eq_get?, restrict_eq]
  exact get?_restrictRelations tree name s.relations

/-! ## Joins and projections -/

theorem map_joinLine_follow?_restrict (h : s.Named) (ha : tree.asks path = true) :
    ((s.restrict tree).follow? path).map joinLine = (s.follow? path).map joinLine := by
  induction path generalizing s tree with
  | nil => rw [follow?, follow?, restrict_eq]; rfl
  | cons name path ih =>
    rw [AskedTree.asks_cons, Option.any_eq_true] at ha
    obtain ⟨asked, hasked, ha⟩ := ha
    rw [follow?, follow?, child?_restrict h, hasked]
    cases hchild : s.child? name with
    | none => rfl
    | some child => exact ih (h.child? hchild) ha

/-- A path leads on in the restricted schema where it does in the whole one and is asked for. -/
theorem isSome_follow?_restrict (h : s.Named) (tree : SelectionTree) (path : List String) :
    ((s.restrict tree).follow? path).isSome = s.follows tree path := by
  induction path generalizing s tree with
  | nil => rfl
  | cons name path ih =>
    rw [follows_cons, follow?, child?_restrict h]
    cases tree.asked? name with
    | none => rfl
    | some asked =>
      cases hchild : s.child? name with
      | none => rfl
      | some child => exact ih (h.child? hchild) asked.subtree

theorem follows_restrict (h : s.Named) (tree : SelectionTree) :
    (s.restrict tree).follows tree = s.follows tree := by
  funext path
  rw [follows, isSome_follow?_restrict h, follows, ← Bool.and_assoc, Bool.and_self]

theorem joinLines_restrict (h : s.Named) (ht : tree.Unambiguous) :
    (s.restrict tree).joinLines tree = s.joinLines tree := by
  rw [joinLines_eq ht, joinLines_eq ht, follows_restrict h]
  refine List.filterMap_congr fun path hp => map_joinLine_follow?_restrict h ?_
  exact (Bool.and_eq_true _ _ ▸ (mem_filter_follows.1 hp).2).1

/-- What is selected, with the relations looked up by name. -/
theorem selected_eq (s : Schema) (select relations : SelectionTree) :
    s.selected select relations
      = (select.flatMap fun e =>
          if e.2.isSelected then
            match relations.asked? e.1, s.child? e.1 with
            | some asked, some child =>
              child.selected (child.selectionOf e.2) asked.subtree
            | _, _ =>
              if s.hasColumn e.1 || relations.flags e.1 then [⟨s.table, e.1⟩] else []
          else [])
        ++ relations.flatMap fun e =>
          if e.2.isSelected && !select.lists e.1 then
            match s.child? e.1 with
            | some child => child.selected child.allColumns e.2.subtree
            | none => []
          else [] := by
  rw [selected]
  congr 1
  · refine List.flatMap_congr fun e _ => ?_
    dsimp only
    cases relations.asked? e.1 <;> cases s.child? e.1 <;> rfl
  · have hattach (f : String × Selection → List TableColumn) :
        (relations.attach.flatMap fun e => f e.1) = relations.flatMap f := by
      simp only [List.flatMap_subtype, List.unattach_attach]
    refine Eq.trans ?_ (hattach _)
    rfl

theorem allColumns_restrict (tree : SelectionTree) (s : Schema) :
    (s.restrict tree).allColumns = s.allColumns := by
  rw [allColumns, columns_restrict, allColumns]

theorem selectionOf_restrict (tree : SelectionTree) (s : Schema) (selection : Selection) :
    (s.restrict tree).selectionOf selection = s.selectionOf selection := by
  cases selection with
  | leaf on => exact allColumns_restrict tree s
  | tree entries => rfl

/-- The walk of a projection steps to relations that are asked for, so it goes through the restricted
schema as through the whole one. -/
theorem selected_restrict {s : Schema} {tree : SelectionTree} (h : s.Named)
    (ht : tree.Unambiguous) (select : SelectionTree) :
    (s.restrict tree).selected select tree = s.selected select tree := by
  rw [selected_eq, selected_eq s]
  congr 1
  · refine List.flatMap_congr fun e _ => ?_
    rw [child?_restrict h]
    cases hasked : tree.asked? e.1 with
    | none => rw [restrict_eq]; rfl
    | some asked =>
      cases hchild : s.child? e.1 with
      | none => rw [restrict_eq]; rfl
      | some child =>
        have := sizeOf_subtree_lt_of_asked? hasked
        have hbelow : asked.subtree.Unambiguous :=
          ht.subtree_of_mem (mem_of_get? (AskedTree.asked?_eq_some hasked).1)
        have hrec := selected_restrict (h.child? hchild) hbelow (child.selectionOf e.2)
        simp only [Option.bind_some, Option.map_some, selectionOf_restrict, hrec]
  · refine List.flatMap_congr fun e he => ?_
    by_cases hon : e.2.isSelected = true
    · rw [child?_restrict h, ht.asked?_of_mem he hon]
      cases hchild : s.child? e.1 with
      | none => rfl
      | some child =>
        have := sizeOf_subtree_lt he
        have hrec := selected_restrict (h.child? hchild) (ht.subtree_of_mem he) child.allColumns
        simp only [Option.bind_some, Option.map_some, allColumns_restrict, hrec]
    · simp [hon]
termination_by sizeOf tree

end Schema

namespace Compiler

/-- All that is written for a request is written from the name, the key and the columns of the table,
the joins and the projection. -/
theorem compile_congr {s t : Schema} {r : Request} (settings : Settings)
    (table : s.table = t.table) (key : s.key = t.key) (columns : s.columns = t.columns)
    (joins : s.joinLines r.relations = t.joinLines r.relations)
    (projection : s.projection r.select r.relations = t.projection r.select r.relations) :
    compile ⟨s, settings⟩ r = compile ⟨t, settings⟩ r := by
  simp only [compile, select, table, key, columns, joins, projection]

/-- What is written for a request does not depend on relations that it does not ask for: the schema
with those that it does ask for, at any depth, gives the same parts of the statement, and the same
two statements. -/
theorem compile_restrict (c : Compiler) (r : Request) (hn : c.schema.Named)
    (hr : r.relations.Unambiguous) :
    let kept : Compiler := { c with schema := c.schema.restrict r.relations }
    (∀ path, (kept.schema.follow? path).isSome = c.schema.follows r.relations path)
      ∧ kept.compile r = c.compile r ∧ kept.find r = c.find r ∧ kept.count r = c.count r := by
  intro kept
  have hprojection : kept.schema.projection r.select r.relations
      = c.schema.projection r.select r.relations :=
    congrArg distinct (Schema.selected_restrict hn hr r.select)
  have hcompile : kept.compile r = c.compile r :=
    compile_congr c.settings (Schema.table_restrict _ _) (Schema.key_restrict _ _)
      (Schema.columns_restrict _ _) (Schema.joinLines_restrict hn hr) hprojection
  exact ⟨Schema.isSome_follow?_restrict hn r.relations, hcompile, congrArg Statement.find hcompile,
    congrArg Statement.count hcompile⟩

/-- Orders, and what a role gives access to, may go where only the role is asked for; `access` is
selected as a column of the role in either schema. -/
theorem compile_restrict_role :
    let access := Schema.build "access" [.columns ["id"]]
    let role := Schema.build "role" [.columns ["id", "access"], .relation "access" access]
    let order := Schema.build "order" [.columns ["id"]]
    let user := Schema.build "user" [.columns ["id"], .relation "order" order, .relation "role" role]
    let kept := Schema.build "user" [.columns ["id"], .relation "role"
      (Schema.build "role" [.columns ["id", "access"]])]
    let r : Request :=
      { relations := [("role", .leaf true), ("order", .leaf false)]
        select := [("id", .leaf true), ("role", .tree [("access", .leaf true)])] }
    user.Named ∧ r.relations.Unambiguous ∧ user.restrict r.relations = kept
      ∧ compile ⟨kept, {}⟩ r = compile ⟨user, {}⟩ r ∧ find ⟨kept, {}⟩ r = find ⟨user, {}⟩ r
      ∧ count ⟨kept, {}⟩ r = count ⟨user, {}⟩ r := by
  intro access role order user kept r
  have haccess : access.Named := .mk (by decide) nofun
  have horder : order.Named := .mk (by decide) nofun
  have hrole : role.Named := .mk (by decide) fun hm => by
    cases List.mem_singleton.1 hm
    exact haccess
  have hn : user.Named := .mk (by decide) fun {name child} hm => by
    rcases List.mem_pair.1 hm with h | h <;> cases h
    · exact horder
    · exact hrole
  have hr : r.relations.Unambiguous := by
    refine AskedTree.NamesDistinct.unambiguous (.mk (by decide) fun {name s} hm => ?_)
    rcases List.mem_pair.1 hm with h | h <;> cases h <;> exact .nil
  have hkept : user.restrict r.relations = kept := rfl
  have hlaw := compile_restrict ⟨user, {}⟩ r hn hr
  rw [hkept] at hlaw
  exact ⟨hn, hr, hkept, hlaw.2⟩

end Compiler

end QuerySql
