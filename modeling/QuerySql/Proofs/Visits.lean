import QuerySql.Proofs.Paths

/-!
# The walk of a projection

A projection is a walk through a schema along two trees at once: what is selected, and what is asked
of the relations. A visit of the walk selects columns of its own table (`Visit.Selects`) and steps
on to relations that are listed in the selection, and to those that are asked for and not listed
(`Visit.Step`). The columns of a projection are those that the visits select
(`Schema.mem_projection`). Each step is one to a relation that is joined, so every column comes from
a table of the statement (`Schema.projection_joined`).
-/

namespace QuerySql

/-- A schema with what is selected from it and what is asked of its relations. -/
structure Visit where
  schema : Schema
  select : SelectionTree
  relations : SelectionTree

namespace Visit

def place (v : Visit) : Place := ⟨v.schema, v.relations⟩

inductive Step : Visit → String → Visit → Prop where
  | listed {s child : Schema} {select relations : SelectionTree} {name : String}
      {selection asked : Selection} (mem : (name, selection) ∈ select)
      (selected : selection.isSelected = true) (request : relations.asked? name = some asked)
      (has : s.child? name = some child) :
      Step ⟨s, select, relations⟩ name ⟨child, child.selectionOf selection, asked.subtree⟩
  | unlisted {s child : Schema} {select relations : SelectionTree} {name : String}
      {asked : Selection} (mem : (name, asked) ∈ relations) (selected : asked.isSelected = true)
      (unlisted : select.lists name = false) (has : s.child? name = some child) :
      Step ⟨s, select, relations⟩ name ⟨child, child.allColumns, asked.subtree⟩

/-- Whether a column of the visit's own table is selected: a listed name that is no relation to step
to, and either a column of the schema or a true flag among the relations. -/
def Selects (v : Visit) (column : String) : Prop :=
  (∃ selection, (column, selection) ∈ v.select ∧ selection.isSelected = true)
    ∧ (v.relations.asked? column = none ∨ v.schema.child? column = none)
    ∧ (v.schema.hasColumn column = true ∨ v.relations.flags column = true)

end Visit

theorem AskedTree.asked?_eq_some {relations : SelectionTree} {name : String}
    {asked : Selection} (h : relations.asked? name = some asked) :
    Entries.get? name relations = some asked ∧ asked.isSelected = true :=
  Option.filter_eq_some_iff.1 h

theorem AskedTree.flags_iff {tree : SelectionTree} {name : String} :
    tree.flags name = true ↔ Entries.get? name tree = some (.leaf true) := by
  unfold flags
  cases Entries.get? name tree with
  | none => simp
  | some s => cases s <;> simp [Asked.isTrue]

namespace Visit

variable {v w : Visit} {name : String} {path : List String}

theorem Step.place (h : v.Step name w) : Place.Step v.place name w.place := by
  cases h with
  | listed mem selected request has =>
    obtain ⟨hget, hsel⟩ := AskedTree.asked?_eq_some request
    exact .mk (mem_of_get? hget) hsel has
  | unlisted mem selected unlisted has => exact .mk mem selected has

theorem sizeOf_lt_of_step (h : v.Step name w) : sizeOf w.relations < sizeOf v.relations := by
  cases h with
  | listed mem selected request has => exact sizeOf_subtree_lt_of_asked? request
  | unlisted mem selected unlisted has => exact sizeOf_subtree_lt mem

end Visit

namespace Schema

variable {s : Schema} {select relations : SelectionTree} {c : TableColumn}

/-- What a listed name selects: columns of a relation to step to, or the column itself. -/
theorem mem_selected_of_listed {name : String} {selection : Selection}
    (mem : (name, selection) ∈ select) (on : selection.isSelected = true)
    (h : (∃ asked child, relations.asked? name = some asked ∧ s.child? name = some child
        ∧ c ∈ child.selected (child.selectionOf selection) asked.subtree)
      ∨ ((relations.asked? name = none ∨ s.child? name = none)
        ∧ (s.hasColumn name = true ∨ relations.flags name = true) ∧ c = ⟨s.table, name⟩)) :
    c ∈ s.selected select relations := by
  rw [selected, List.mem_append, List.mem_flatMap]
  refine .inl ⟨_, mem, ?_⟩
  dsimp only
  rw [if_pos on]
  split
  · rename_i asked child hasked hchild
    rcases h with ⟨asked', child', hasked', hchild', h⟩ | ⟨h | h, -⟩
    · cases hasked.symm.trans hasked'
      cases hchild.symm.trans hchild'
      exact h
    · cases hasked.symm.trans h
    · cases hchild.symm.trans h
  · rename_i hno
    rcases h with ⟨asked, child, hasked, hchild, -⟩ | ⟨-, hcol, rfl⟩
    · exact (hno asked child hasked hchild).elim
    · rw [if_pos (by simpa using hcol)]
      exact List.mem_singleton_self _

theorem mem_selected_of_step {name : String} {w : Visit}
    (hstep : Visit.Step ⟨s, select, relations⟩ name w)
    (h : c ∈ w.schema.selected w.select w.relations) : c ∈ s.selected select relations := by
  cases hstep with
  | listed hm on hasked hchild =>
    exact mem_selected_of_listed hm on (.inl ⟨_, _, hasked, hchild, h⟩)
  | unlisted hm on unlisted hchild =>
    rw [selected, List.mem_append, List.mem_flatMap, List.mem_flatMap]
    refine .inr ⟨⟨_, hm⟩, List.mem_attach _ _, ?_⟩
    dsimp only
    rw [if_pos (by simpa using ⟨on, unlisted⟩), hchild]
    exact h

theorem selects_or_step_of_mem_selected (h : c ∈ s.selected select relations) :
    Visit.Selects ⟨s, select, relations⟩ c.column ∧ c.table = s.table
      ∨ ∃ name w, Visit.Step ⟨s, select, relations⟩ name w
          ∧ c ∈ w.schema.selected w.select w.relations := by
  rw [selected, List.mem_append, List.mem_flatMap, List.mem_flatMap] at h
  rcases h with ⟨⟨name, selection⟩, hm, h⟩ | ⟨⟨⟨name, asked⟩, hm⟩, -, h⟩
  · dsimp only at h
    split at h
    · rename_i on
      split at h
      · rename_i asked child hasked hchild
        exact .inr ⟨name, _, .listed hm on hasked hchild, h⟩
      · rename_i hno
        split at h
        · rename_i hcol
          cases List.mem_singleton.1 h
          refine .inl ⟨⟨⟨selection, hm, on⟩, ?_, by simpa using hcol⟩, rfl⟩
          cases hasked : relations.asked? name with
          | none => exact .inl rfl
          | some asked =>
            exact .inr (Option.eq_none_iff_forall_ne_some.2 fun child => hno asked child hasked)
        · cases h
    · cases h
  · dsimp only at h
    split at h
    · rename_i hon
      obtain ⟨on, unlisted⟩ := by simpa using hon
      split at h
      · rename_i child hchild
        exact .inr ⟨name, _, .unlisted hm on unlisted hchild, h⟩
      · cases h
    · cases h

theorem mem_selected_step : c ∈ s.selected select relations
    ↔ Visit.Selects ⟨s, select, relations⟩ c.column ∧ c.table = s.table
      ∨ ∃ name w, Visit.Step ⟨s, select, relations⟩ name w
          ∧ c ∈ w.schema.selected w.select w.relations := by
  refine ⟨selects_or_step_of_mem_selected, ?_⟩
  rintro (⟨⟨⟨selection, hm, on⟩, hno, hcol⟩, htab⟩ | ⟨name, w, hstep, h⟩)
  · exact mem_selected_of_listed hm on (.inr ⟨hno, hcol, by cases c; cases htab; rfl⟩)
  · exact mem_selected_of_step hstep h

/-- The columns that are selected are those that the visits select, each with its own table. -/
theorem mem_selected {s : Schema} {select relations : SelectionTree} :
    c ∈ s.selected select relations ↔ ∃ path v,
      Leads Visit.Step ⟨s, select, relations⟩ path v ∧ v.Selects c.column
        ∧ c.table = v.schema.table := by
  rw [mem_selected_step]
  constructor
  · rintro (⟨hsel, htab⟩ | ⟨name, w, hstep, h⟩)
    · exact ⟨[], _, .here _, hsel, htab⟩
    · have := Visit.sizeOf_lt_of_step hstep
      obtain ⟨path, v, hl, hv⟩ := mem_selected.1 h
      exact ⟨name :: path, v, .there hstep hl, hv⟩
  · rintro ⟨path, v, hl, hsel, htab⟩
    cases hl with
    | here => exact .inl ⟨hsel, htab⟩
    | there hstep hl =>
      have := Visit.sizeOf_lt_of_step hstep
      exact .inr ⟨_, _, hstep, mem_selected.2 ⟨_, v, hl, hsel, htab⟩⟩
termination_by sizeOf relations

theorem mem_projection : c ∈ s.projection select relations ↔ ∃ path v,
    Leads Visit.Step ⟨s, select, relations⟩ path v ∧ v.Selects c.column
      ∧ c.table = v.schema.table :=
  mem_distinct.trans mem_selected

/-- Every column of a projection comes from a table of the statement: the schema's own, or one that
the same request joins. There it is a column of the schema, or a true flag that names no
relation. -/
theorem projection_joined (h : c ∈ s.projection select relations) :
    ∃ path node below, Leads Place.Step ⟨s, relations⟩ path ⟨node, below⟩
      ∧ (path = [] ∧ node = s
        ∨ (path, node) ∈ s.reached [] relations ∧ node.joinLine ∈ s.joinLines relations)
      ∧ c.table = node.table
      ∧ (node.hasColumn c.column = true
        ∨ Entries.get? c.column below = some (.leaf true) ∧ node.child? c.column = none) := by
  obtain ⟨path, v, hl, ⟨-, hno, hcol⟩, htab⟩ := mem_projection.1 h
  have hplace : Leads Place.Step ⟨s, relations⟩ path v.place := hl.map Visit.place Visit.Step.place
  refine ⟨path, v.schema, v.relations, hplace, ?_, htab, ?_⟩
  · cases path with
    | nil => exact .inl ⟨rfl, (congrArg Visit.schema hl.eq_of_nil).symm⟩
    | cons name path =>
      have hr : (name :: path, v.schema) ∈ s.reached [] relations :=
        mem_reached.2 ⟨List.cons_ne_nil _ _, _, hplace⟩
      exact .inr ⟨hr, joinLine_mem hr⟩
  · rcases hcol with hcol | hflag
    · exact .inl hcol
    · have hget := AskedTree.flags_iff.1 hflag
      -- A true flag is asked for, so it can only be the schema that has no such relation.
      have hasked : v.relations.asked? c.column = some (.leaf true) := by
        rw [AskedTree.asked?, hget]
        rfl
      exact .inr ⟨hget, hno.resolve_left fun hn => nomatch hasked.symm.trans hn⟩

/-- A relation that is asked for and not selected gives a column of its own table. -/
theorem projection_joined_role :
    let role := build "role" [.columns ["id", "name"]]
    let user := build "user" [.columns ["id"], .relation "role" role]
    let asked := [("role", Asked.leaf true)]
    ⟨"role", "name"⟩ ∈ user.projection [("id", .leaf true)] asked
      ∧ ∃ path node below, Leads Place.Step ⟨user, asked⟩ path ⟨node, below⟩
        ∧ (path = [] ∧ node = user
          ∨ (path, node) ∈ user.reached [] asked ∧ node.joinLine ∈ user.joinLines asked)
        ∧ "role" = node.table
        ∧ (node.hasColumn "name" = true
          ∨ Entries.get? "name" below = some (.leaf true) ∧ node.child? "name" = none) := by
  intro role user asked
  have hmem : ⟨"role", "name"⟩ ∈ user.projection [("id", .leaf true)] asked :=
    mem_projection.2 ⟨["role"], ⟨role, role.allColumns, []⟩,
      .there (.unlisted (List.mem_singleton_self _) rfl rfl rfl) (.here _),
      ⟨⟨_, List.mem_cons_of_mem _ (List.mem_singleton_self _), rfl⟩, .inl rfl, .inl rfl⟩, rfl⟩
  exact ⟨hmem, projection_joined hmem⟩

end Schema

end QuerySql
