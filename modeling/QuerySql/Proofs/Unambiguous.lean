import QuerySql.Proofs.Visits
import QuerySql.Request.Json

/-!
# Trees that repeat no name

A tree is unambiguous where every entry, at every depth, is the one that its name finds. That holds
where no name is repeated at all (`AskedTree.NamesDistinct`), as in the trees that are read from a
document (`Asked.namesDistinct_of_decodeTree`); the tree of all columns of a schema may repeat one.
Along unambiguous trees a path leads to one place (`Place.eq_of_leads`), and a walk visits it at
most once (`Visit.eq_of_leads`).
-/

namespace QuerySql

/-- Whether every entry of the tree is the one that its name finds, and so on below it. -/
inductive AskedTree.Unambiguous {α : Type} : AskedTree α → Prop where
  | mk {tree : AskedTree α}
      (found : ∀ {name a}, (name, a) ∈ tree → Entries.get? name tree = some a)
      (below : ∀ {name a}, (name, a) ∈ tree → Unambiguous a.subtree) : Unambiguous tree

/-- Whether the tree repeats no name, and so on below it. -/
inductive AskedTree.NamesDistinct {α : Type} : AskedTree α → Prop where
  | mk {tree : AskedTree α} (nodup : (Entries.names tree).Nodup)
      (below : ∀ {name a}, (name, a) ∈ tree → NamesDistinct a.subtree) : NamesDistinct tree

theorem Schema.mem_allColumns {s : Schema} {name : String} {f : Selection} :
    (name, f) ∈ s.allColumns ↔ s.hasColumn name = true ∧ f = .leaf true := by
  simp only [allColumns, hasColumn, List.mem_map, Prod.mk.injEq, List.elem_eq_mem,
    decide_eq_true_eq]
  constructor
  · rintro ⟨c, hc, rfl, rfl⟩
    exact ⟨hc, rfl⟩
  · rintro ⟨hc, rfl⟩
    exact ⟨name, hc, rfl, rfl⟩

theorem Schema.get?_allColumns (s : Schema) (name : String) :
    Entries.get? name s.allColumns = if s.hasColumn name then some (.leaf true) else none := by
  unfold allColumns hasColumn
  induction s.columns with
  | nil => rfl
  | cons c rest ih =>
    rw [List.map_cons, Entries.get?, ih]
    by_cases h : c = name
    · simp [h]
    · have h' : name ≠ c := fun e => h e.symm
      simp [h, h']

section

variable {α : Type} {tree : AskedTree α} {name : String} {a : Asked α}

namespace AskedTree.Unambiguous

theorem get?_of_mem (h : Unambiguous tree) (hm : (name, a) ∈ tree) :
    Entries.get? name tree = some a := by
  cases h with
  | mk found below => exact found hm

theorem subtree_of_mem (h : Unambiguous tree) (hm : (name, a) ∈ tree) :
    Unambiguous a.subtree := by
  cases h with
  | mk found below => exact below hm

theorem nil : Unambiguous (α := α) [] := .mk nofun nofun

theorem singleton (h : Unambiguous a.subtree) : Unambiguous [(name, a)] := by
  refine .mk (fun hm => ?_) fun hm => ?_ <;> cases List.mem_singleton.1 hm
  · exact if_pos rfl
  · exact h

end AskedTree.Unambiguous

namespace AskedTree.NamesDistinct

theorem nil : NamesDistinct (α := α) [] := .mk .nil nofun

theorem nodup (h : NamesDistinct tree) : (Entries.names tree).Nodup := by
  cases h with
  | mk nodup below => exact nodup

theorem subtree_of_mem (h : NamesDistinct tree) (hm : (name, a) ∈ tree) :
    NamesDistinct a.subtree := by
  cases h with
  | mk nodup below => exact below hm

theorem singleton (h : NamesDistinct a.subtree) : NamesDistinct [(name, a)] :=
  .mk (List.pairwise_singleton ..) fun hm => by cases List.mem_singleton.1 hm; exact h

theorem unambiguous (h : NamesDistinct tree) : Unambiguous tree := by
  induction h with
  | mk nodup _ ih => exact .mk (Entries.get?_of_mem nodup) ih

theorem ofList {pairs : List (String × Asked α)}
    (h : ∀ e ∈ pairs, NamesDistinct e.2.subtree) : NamesDistinct (Entries.ofList pairs) :=
  .mk (Entries.nodup_names_ofList pairs) fun hm => h _ (Entries.mem_of_mem_ofList hm)

end AskedTree.NamesDistinct

end

namespace AskedTree.Unambiguous

variable {tree : SelectionTree} {name : String} {s : Selection}

theorem asked?_of_mem (h : Unambiguous tree) (hm : (name, s) ∈ tree)
    (on : s.isSelected = true) : tree.asked? name = some s := by
  rw [asked?, h.get?_of_mem hm]
  exact if_pos on

theorem lists_of_mem (h : Unambiguous tree) (hm : (name, s) ∈ tree) (on : s.isSelected = true) :
    tree.lists name = true := by
  rw [lists, h.get?_of_mem hm]
  cases s with
  | leaf on' => cases on; rfl
  | tree entries => rfl

/-- All columns are flags, whether or not the schema repeats one. -/
theorem allColumns (s : Schema) : Unambiguous s.allColumns := by
  refine .mk (fun {name f} hm => ?_) fun {name f} hm => ?_
  · obtain ⟨hc, rfl⟩ := Schema.mem_allColumns.1 hm
    rw [s.get?_allColumns, if_pos hc]
  · obtain ⟨-, rfl⟩ := Schema.mem_allColumns.1 hm
    exact nil

end AskedTree.Unambiguous

/-! ## Trees that are read -/

namespace Asked

variable {α : Type} {form : LeafForm α}

mutual

theorem namesDistinct_of_ofDocument? {d : Document} {a : Asked α}
    (h : ofDocument? form d = some a) : a.subtree.NamesDistinct := by
  cases d with
  | object _ members _ =>
    obtain ⟨entries, he, rfl⟩ := Option.map_eq_some_iff.1 h
    exact .ofList (namesDistinct_of_ofMembers? he)
  | _ =>
    obtain ⟨value, -, rfl⟩ := Option.map_eq_some_iff.1 h
    exact .nil

theorem namesDistinct_of_ofMembers? {members : List (Document × Document)}
    {entries : List (String × Asked α)} (h : ofMembers? form members = some entries) :
    ∀ e ∈ entries, e.2.subtree.NamesDistinct := by
  match members with
  | [] => cases h; exact nofun
  | (n, d) :: rest =>
    cases n with
    | string name =>
      cases name with
      | error f => cases h
      | ok name =>
        obtain ⟨a, ha, h⟩ := Option.bind_eq_some_iff.1 h
        obtain ⟨entries', he, h⟩ := Option.bind_eq_some_iff.1 h
        cases h
        exact List.forall_mem_cons.2
          ⟨namesDistinct_of_ofDocument? ha, namesDistinct_of_ofMembers? he⟩
    | _ => cases h

end

theorem namesDistinct_of_decode {d : Document} {a : Asked α} (h : decode form d = .ok a) :
    a.subtree.NamesDistinct := by
  obtain ⟨v, -, h⟩ := exists_of_bind_eq_ok h
  split at h
  · rename_i ha
    cases h
    exact namesDistinct_of_ofDocument? ha
  · cases h

theorem namesDistinct_of_decodeTree {d : Document} {tree : AskedTree α}
    (h : decodeTree form d = .ok tree) : tree.NamesDistinct := by
  obtain ⟨pairs, hp, rfl⟩ := Decode.exists_of_map_eq_ok h
  refine .ofList fun e he => ?_
  obtain ⟨x, -, hx⟩ := Decode.exists_of_mem_entries hp he
  exact namesDistinct_of_decode hx

end Asked

/-! ## Paths along unambiguous trees -/

namespace Place

variable {p q q' : Place} {name : String} {path : List String}

theorem unambiguous_step (hp : p.relations.Unambiguous) (h : p.Step name q) :
    q.relations.Unambiguous := by
  cases h with
  | mk mem selected has => exact hp.subtree_of_mem mem

theorem unambiguous_of_leads (hp : p.relations.Unambiguous) (h : Leads Step p path q) :
    q.relations.Unambiguous :=
  h.induct hp unambiguous_step

theorem eq_of_step (hp : p.relations.Unambiguous) (h : p.Step name q) (h' : p.Step name q') :
    q = q' := by
  cases h with
  | mk mem selected has =>
    cases h' with
    | mk mem' selected' has' =>
      cases (hp.get?_of_mem mem).symm.trans (hp.get?_of_mem mem')
      cases has.symm.trans has'
      rfl

theorem eq_of_leads (hp : p.relations.Unambiguous) (h : Leads Step p path q)
    (h' : Leads Step p path q') : q = q' :=
  h.eq_of_leads h' hp unambiguous_step eq_of_step

end Place

namespace Visit

variable {v w w' : Visit} {name : String} {path : List String}

structure Unambiguous (v : Visit) : Prop where
  select : v.select.Unambiguous
  relations : v.relations.Unambiguous

theorem Unambiguous.step (hv : v.Unambiguous) (h : v.Step name w) : w.Unambiguous := by
  refine ⟨?_, Place.unambiguous_step hv.relations h.place⟩
  cases h with
  | @listed s child select relations name selection asked mem selected request has =>
    cases selection with
    | leaf on => exact .allColumns child
    | tree entries => exact hv.select.subtree_of_mem mem
  | unlisted mem selected unlisted has => exact .allColumns _

theorem eq_of_step (hv : v.Unambiguous) (h : v.Step name w) (h' : v.Step name w') : w = w' := by
  -- The names asked for and the relation are the same, whether or not the step is listed.
  obtain ⟨hschema, hrelations⟩ : w.schema = w'.schema ∧ w.relations = w'.relations :=
    Place.mk.inj (Place.eq_of_step hv.relations h.place h'.place)
  suffices hselect : w.select = w'.select by
    cases w
    cases w'
    cases hschema
    cases hrelations
    cases hselect
    rfl
  cases h with
  | listed mem selected request has =>
    cases h' with
    | listed mem' selected' request' has' =>
      cases (hv.select.get?_of_mem mem).symm.trans (hv.select.get?_of_mem mem')
      exact congrArg (Schema.selectionOf · _) hschema
    | unlisted mem' selected' unlisted has' =>
      cases (hv.select.lists_of_mem mem selected).symm.trans unlisted
  | unlisted mem selected unlisted has =>
    cases h' with
    | listed mem' selected' request' has' =>
      cases (hv.select.lists_of_mem mem' selected').symm.trans unlisted
    | unlisted mem' selected' unlisted' has' => exact congrArg Schema.allColumns hschema

theorem eq_of_leads (hv : v.Unambiguous) (h : Leads Step v path w) (h' : Leads Step v path w') :
    w = w' :=
  h.eq_of_leads h' hv Unambiguous.step eq_of_step

end Visit

end QuerySql
