import Mathlib
import QuerySql.Proofs.Unambiguous

/-!
# Relations that the selection does not restrict

A relation that is joined and that the selection does not restrict is selected with all its columns
(`AskedTree.Unrestricted`). The walk comes to it with a tree of flags that is made of the
columns (`Place.expanded`), and goes through that tree as through any other: a name in it that is
also the name of a relation to join is a step to that relation, and selects no column. So a column
is selected exactly where no relation of its name is joined below it
(`Schema.mem_projection_of_unrestricted`).
-/

namespace QuerySql

def Asked.at? : Selection → List String → Option Selection
  | s, [] => some s
  | s, name :: path => (Entries.get? name s.subtree).bind fun below => below.at? path

namespace AskedTree

variable {select : SelectionTree} {name : String} {path : List String}

def at? (tree : SelectionTree) (path : List String) : Option Selection :=
  (Asked.tree tree).at? path

theorem at?_cons (tree : SelectionTree) (name : String) (path : List String) :
    tree.at? (name :: path) = (Entries.get? name tree).bind fun below => below.at? path := rfl

/-- Whether the selection asks for all columns at the end of the path: along it no empty tree is
listed, and the path, or what it lies below, is a flag or not listed. -/
structure Unrestricted (select : SelectionTree) (path : List String) : Prop where
  notEmpty : ∀ front, front ≠ [] → front <+: path → select.at? front ≠ some (.tree [])
  flagged : ∃ front, front ≠ [] ∧ front <+: path
    ∧ (select.at? front = none ∨ ∃ on, select.at? front = some (.leaf on))

theorem Unrestricted.below {entries : SelectionTree} (h : select.Unrestricted (name :: path))
    (hg : Entries.get? name select = some (.tree entries)) : Unrestricted entries path := by
  have hat (front : List String) : select.at? (name :: front) = at? entries front := by
    rw [at?_cons, hg]
    rfl
  refine ⟨fun front _ hpre => ?_, ?_⟩
  · rw [← hat]
    exact h.notEmpty _ (List.cons_ne_nil _ _) (List.cons_prefix_cons.2 ⟨rfl, hpre⟩)
  · obtain ⟨_ | ⟨n, front⟩, hne, hpre, hflag⟩ := h.flagged
    · exact (hne rfl).elim
    · obtain ⟨rfl, hpre'⟩ := List.cons_prefix_cons.1 hpre
      rw [hat] at hflag
      refine ⟨front, ?_, hpre', hflag⟩
      rintro rfl
      rcases hflag with h | ⟨on, h⟩ <;> cases h

theorem unrestricted_of_flag (h : ∀ entries, Entries.get? name select ≠ some (.tree entries)) :
    select.Unrestricted (name :: path) := by
  have hflag : select.at? [name] = none ∨ ∃ on, select.at? [name] = some (.leaf on) := by
    rw [at?_cons]
    match hg : Entries.get? name select with
    | none => exact .inl rfl
    | some (.leaf on) => exact .inr ⟨on, rfl⟩
    | some (.tree entries) => exact (h entries hg).elim
  refine ⟨fun front hne hpre hat => ?_, [name], List.cons_ne_nil _ _, ?_, hflag⟩
  · obtain ⟨n, front, rfl⟩ := List.exists_cons_of_ne_nil hne
    obtain ⟨rfl, -⟩ := List.cons_prefix_cons.1 hpre
    rw [at?_cons, Option.bind_eq_some_iff] at hat
    obtain ⟨below, hg, hat⟩ := hat
    cases below with
    | leaf on => cases front <;> cases hat
    | tree entries => exact h entries hg
  · exact List.cons_prefix_cons.2 ⟨rfl, List.nil_prefix⟩

end AskedTree

/-- A visit that selects all columns of the place. -/
def Place.expanded (p : Place) : Visit := ⟨p.schema, p.schema.allColumns, p.relations⟩

namespace Visit

variable {s : Schema} {select relations : SelectionTree} {name : String} {path : List String}
  {p q : Place}

theorem step_expanded (hr : relations.Unambiguous) (h : Place.Step ⟨s, relations⟩ name q)
    (hg : ∀ entries, Entries.get? name select ≠ some (.tree entries)) :
    Visit.Step ⟨s, select, relations⟩ name q.expanded := by
  cases h with
  | mk mem selected has =>
    match h : Entries.get? name select with
    | none => exact .unlisted mem selected (by rw [AskedTree.lists, h]) has
    | some (.leaf false) => exact .unlisted mem selected (by rw [AskedTree.lists, h]) has
    | some (.leaf true) =>
      exact .listed (mem_of_get? h) rfl (hr.asked?_of_mem mem selected) has
    | some (.tree entries) => exact (hg entries h).elim

theorem leads_expanded (hr : p.relations.Unambiguous) (h : Leads Place.Step p path q) :
    Leads Visit.Step p.expanded path q.expanded := by
  induction h with
  | here => exact .here _
  | there first _ ih =>
    refine .there (step_expanded hr first fun entries => ?_) (ih (Place.unambiguous_step hr first))
    rw [Schema.get?_allColumns]
    split <;> simp

/-- The walk comes to a place that is not restricted, and selects all columns there. -/
theorem leads_of_unrestricted (hr : relations.Unambiguous)
    (h : Leads Place.Step ⟨s, relations⟩ path q) (hun : select.Unrestricted path) :
    Leads Visit.Step ⟨s, select, relations⟩ path q.expanded := by
  induction path generalizing s select relations with
  | nil =>
    obtain ⟨front, hne, hpre, -⟩ := hun.flagged
    exact (hne (List.prefix_nil.1 hpre)).elim
  | cons name path ih =>
    cases h with
    | there first further =>
      have hr' := Place.unambiguous_step hr first
      match hg : Entries.get? name select with
      | some (.tree []) =>
        refine (hun.notEmpty [name] (List.cons_ne_nil _ _) ?_ ?_).elim
        · exact List.cons_prefix_cons.2 ⟨rfl, List.nil_prefix⟩
        · rw [AskedTree.at?_cons, hg]
          rfl
      | some (.tree (e :: entries)) =>
        have hun' := hun.below hg
        cases first with
        | mk mem selected has =>
          exact .there (.listed (mem_of_get? hg) rfl (hr.asked?_of_mem mem selected) has)
            (ih hr' further hun')
      | none => exact .there (step_expanded hr first (by simp [hg])) (leads_expanded hr' further)
      | some (.leaf on) =>
        exact .there (step_expanded hr first (by simp [hg])) (leads_expanded hr' further)

end Visit

namespace Schema

variable {s node : Schema} {select relations : SelectionTree} {path : List String}
  {column : String}

/-- Whether a relation is joined under the names of the path. -/
def Joins (s : Schema) (relations : SelectionTree) (path : List String) : Prop :=
  ∃ node, (path, node) ∈ s.reached [] relations

theorem joins_concat {below : SelectionTree} (hr : relations.Unambiguous)
    (h : Leads Place.Step ⟨s, relations⟩ path ⟨node, below⟩) :
    s.Joins relations (path ++ [column])
      ↔ below.asked? column ≠ none ∧ node.child? column ≠ none := by
  constructor
  · rintro ⟨child, hm⟩
    obtain ⟨-, below', hl⟩ := mem_reached.1 hm
    obtain ⟨p, hp, hstep⟩ := hl.of_concat
    cases Place.eq_of_leads hr hp h
    cases hstep with
    | mk mem selected has =>
      have hbelow : below.Unambiguous := Place.unambiguous_of_leads hr h
      simp [hbelow.asked?_of_mem mem selected, has]
  · rintro ⟨hasked, hchild⟩
    obtain ⟨asked, hasked⟩ := Option.ne_none_iff_exists'.1 hasked
    obtain ⟨child, hchild⟩ := Option.ne_none_iff_exists'.1 hchild
    obtain ⟨hget, on⟩ := AskedTree.asked?_eq_some hasked
    exact ⟨child, mem_reached.2 ⟨by simp, _, h.concat (.mk (mem_of_get? hget) on hchild)⟩⟩

/-- A tree of all columns selects a column where its name is no relation to join. -/
theorem selects_expanded {below : SelectionTree} (hc : node.hasColumn column = true) :
    (Place.expanded ⟨node, below⟩).Selects column
      ↔ below.asked? column = none ∨ node.child? column = none :=
  ⟨fun h => h.2.1, fun h => ⟨⟨_, mem_allColumns.2 ⟨hc, rfl⟩, rfl⟩, h, .inl hc⟩⟩

/-- A column of a joined relation that the selection does not restrict is in the projection exactly
where no relation is joined under its name from there, or another visit selects it in a table of
the same name. -/
theorem mem_projection_of_unrestricted (hs : select.Unambiguous) (hr : relations.Unambiguous)
    (hj : (path, node) ∈ s.reached [] relations) (hun : select.Unrestricted path)
    (hc : node.hasColumn column = true) :
    ⟨node.table, column⟩ ∈ s.projection select relations
      ↔ ¬ s.Joins relations (path ++ [column])
        ∨ ∃ path' v, path' ≠ path ∧ Leads Visit.Step ⟨s, select, relations⟩ path' v
          ∧ v.schema.table = node.table ∧ v.Selects column := by
  obtain ⟨-, below, hp⟩ := mem_reached.1 hj
  have hvisit : Leads Visit.Step ⟨s, select, relations⟩ path (Place.expanded ⟨node, below⟩) :=
    Visit.leads_of_unrestricted hr hp hun
  have hselects : (Place.expanded ⟨node, below⟩).Selects column
      ↔ ¬ s.Joins relations (path ++ [column]) := by
    rw [selects_expanded hc, joins_concat hr hp, Classical.not_and_iff_not_or_not,
      Classical.not_not, Classical.not_not]
  rw [mem_projection]
  constructor
  · rintro ⟨path', v, hl, hsel, htab⟩
    by_cases he : path' = path
    · subst he
      cases Visit.eq_of_leads ⟨hs, hr⟩ hl hvisit
      exact .inl (hselects.1 hsel)
    · exact .inr ⟨path', v, he, hl, htab.symm, hsel⟩
  · rintro (hno | ⟨path', v, -, hl, htab, hsel⟩)
    · exact ⟨path, _, hvisit, hselects.2 hno, rfl⟩
    · exact ⟨path', v, hl, hsel, htab.symm⟩

/-- A role that the selection does not name has its key selected, beside the access it joins. -/
theorem mem_projection_of_unrestricted_id :
    let access := build "access" [.columns ["id"]]
    let role := build "role" [.columns ["id", "access"], .relation "access" access]
    let user := build "user" [.columns ["id"], .relation "role" role]
    let relations : SelectionTree := [("role", .tree [("access", .leaf true)])]
    ⟨"role", "id"⟩ ∈ user.projection [("id", .leaf true)] relations := by
  intro access role user relations
  have hreached : user.reached [] relations
      = [(["role"], role), (["role", "access"], access)] := by cbv
  have hj : (["role"], role) ∈ user.reached [] relations := hreached ▸ List.mem_cons_self
  have hs : AskedTree.Unambiguous [("id", .leaf true)] := .singleton (a := .leaf true) .nil
  have hbelow : AskedTree.Unambiguous [("access", .leaf true)] :=
    .singleton (a := .leaf true) .nil
  have hr : relations.Unambiguous := .singleton hbelow
  have hun : AskedTree.Unrestricted [("id", .leaf true)] ["role"] :=
    AskedTree.unrestricted_of_flag (by simp [Entries.get?])
  have hno : ¬ user.Joins relations ["role", "id"] := by
    rintro ⟨node, h⟩
    rw [hreached] at h
    simp at h
  exact (mem_projection_of_unrestricted hs hr hj hun (by decide)).2 (.inl hno)

/-- A column of a role that bears the name of a relation to join is not selected. -/
theorem mem_projection_of_unrestricted_access :
    let access := build "access" [.columns ["id"]]
    let role := build "role" [.columns ["id", "access"], .relation "access" access]
    let user := build "user" [.columns ["id"], .relation "role" role]
    let select : SelectionTree := [("id", .leaf true)]
    let relations : SelectionTree := [("role", .tree [("access", .leaf true)])]
    select.Unambiguous ∧ relations.Unambiguous
      ∧ (["role"], role) ∈ user.reached [] relations
      ∧ select.Unrestricted ["role"]
      ∧ role.hasColumn "access" = true
      ∧ ⟨role.table, "access"⟩ ∉ user.projection select relations := by
  intro access role user select relations
  have hreached : user.reached [] relations
      = [(["role"], role), (["role", "access"], access)] := by cbv
  have hprojection : user.projection select relations
      = [⟨"user", "id"⟩, ⟨"role", "id"⟩, ⟨"access", "id"⟩] := by cbv
  have hs : select.Unambiguous := .singleton (a := .leaf true) .nil
  have hbelow : AskedTree.Unambiguous [("access", .leaf true)] :=
    .singleton (a := .leaf true) .nil
  refine ⟨hs, .singleton hbelow, hreached ▸ List.mem_cons_self,
    AskedTree.unrestricted_of_flag (by simp [select, Entries.get?]), by decide, ?_⟩
  rw [hprojection]
  decide

end Schema

end QuerySql
