import Mathlib
import QuerySql.Proofs.Unambiguous

/-!
# The order of the joins

A tree of selections has its paths in the order in which it is written (`AskedTree.paths`). A
request joins the relations at those of them that it asks for (`AskedTree.asks`) and that the
schema follows (`Schema.follow?`). The joins list them in that order, each once and behind the one
it is reached from (`Schema.joinLines_in_order`).
-/

namespace QuerySql

namespace AskedTree

/-- The paths of the tree as it is written: each name, the paths below it, then the next name. -/
def paths : SelectionTree → List (List String)
  | [] => []
  | (name, .leaf _) :: rest => [name] :: paths rest
  | (name, .tree entries) :: rest => [name] :: (paths entries).map (name :: ·) ++ paths rest

/-- Whether the tree asks for every name along the path. -/
def asks (tree : SelectionTree) : List String → Bool
  | [] => true
  | name :: path =>
    match tree.asked? name with
    | some asked => asks asked.subtree path
    | none => false

variable {tree rest : SelectionTree} {name : String} {s : Selection} {path p q : List String}

theorem paths_cons (name : String) (s : Selection) (rest : SelectionTree) :
    paths ((name, s) :: rest) = ([] :: paths s.subtree).map (name :: ·) ++ paths rest := by
  cases s <;> simp [paths, Asked.subtree]

theorem mem_paths : path ∈ tree.paths
    ↔ ∃ name s below, (name, s) ∈ tree ∧ path = name :: below
        ∧ (below = [] ∨ below ∈ s.subtree.paths) := by
  induction tree with
  | nil => simp [paths]
  | cons e rest ih =>
    obtain ⟨n, t⟩ := e
    rw [paths_cons, List.mem_append, ih]
    constructor
    · rintro (h | ⟨name, s, below, hm, h⟩)
      · rcases List.mem_cons.1 h with rfl | h
        · exact ⟨n, t, [], List.mem_cons_self, rfl, .inl rfl⟩
        · obtain ⟨below, hb, rfl⟩ := List.mem_map.1 h
          exact ⟨n, t, below, List.mem_cons_self, rfl, .inr hb⟩
      · exact ⟨name, s, below, List.mem_cons_of_mem _ hm, h⟩
    · rintro ⟨name, s, below, hm, rfl, h⟩
      rcases List.mem_cons.1 hm with he | hm
      · cases he
        rcases h with rfl | h
        · exact .inl List.mem_cons_self
        · exact .inl (List.mem_cons_of_mem _ (List.mem_map.2 ⟨below, h, rfl⟩))
      · exact .inr ⟨name, s, below, hm, rfl, h⟩

theorem head_mem_names (h : name :: path ∈ tree.paths) : name ∈ Entries.names tree := by
  obtain ⟨n, s, below, hm, he, -⟩ := mem_paths.1 h
  cases he
  exact List.mem_map.2 ⟨_, hm, rfl⟩

theorem ne_nil_of_mem_paths (h : path ∈ tree.paths) : path ≠ [] := by
  obtain ⟨n, s, below, -, rfl, -⟩ := mem_paths.1 h
  exact List.cons_ne_nil _ _

/-- No path comes twice, or before one that it continues. -/
theorem pairwise_paths (h : tree.NamesDistinct) : tree.paths.Pairwise fun p q => ¬ q <+: p := by
  induction h with
  | @mk tree nodup below ih =>
    clear below
    induction tree with
    | nil => rw [paths]; exact .nil
    | cons e rest ihr =>
      obtain ⟨name, s⟩ := e
      obtain ⟨hname, nodup⟩ := List.nodup_cons.1 nodup
      have hrest := ihr nodup fun hm => ih (List.mem_cons_of_mem _ hm)
      have hbelow := ih (List.mem_cons_self (a := (name, s)))
      -- A path below the name and one behind it differ in their first name.
      have hother {below q : List String} (hq : q ∈ paths rest) : ¬ q <+: name :: below := by
        intro hpre
        obtain ⟨n, q, rfl⟩ := List.exists_cons_of_ne_nil (ne_nil_of_mem_paths hq)
        obtain ⟨rfl, -⟩ := List.cons_prefix_cons.1 hpre
        exact hname (head_mem_names hq)
      rw [paths_cons, List.pairwise_append]
      refine ⟨?_, hrest, fun p hp q hq => ?_⟩
      · have hnil : ∀ q ∈ s.subtree.paths, ¬ q <+: [] := fun q hq hpre =>
          ne_nil_of_mem_paths hq (List.prefix_nil.1 hpre)
        refine List.pairwise_map.2 ((List.pairwise_cons.2 ⟨hnil, hbelow⟩).imp fun h hpre => ?_)
        exact h (List.cons_prefix_cons.1 hpre).2
      · obtain ⟨below, -, rfl⟩ := List.mem_map.1 hp
        exact hother hq

theorem asks_cons (tree : SelectionTree) (name : String) (path : List String) :
    tree.asks (name :: path) = (tree.asked? name).any fun asked => asked.subtree.asks path := by
  rw [asks]
  cases tree.asked? name <;> rfl

theorem mem_paths_of_asks (hne : path ≠ []) (h : tree.asks path = true) : path ∈ tree.paths := by
  induction path generalizing tree with
  | nil => exact (hne rfl).elim
  | cons name path ih =>
    rw [asks_cons, Option.any_eq_true] at h
    obtain ⟨asked, hasked, h⟩ := h
    obtain ⟨hget, -⟩ := asked?_eq_some hasked
    refine mem_paths.2 ⟨name, asked, path, mem_of_get? hget, rfl, ?_⟩
    cases path with
    | nil => exact .inl rfl
    | cons n path => exact .inr (ih (List.cons_ne_nil _ _) h)

end AskedTree

namespace Schema

variable {s : Schema} {tree relations : SelectionTree} {path front : List String}

def follow? (s : Schema) : List String → Option Schema
  | [] => some s
  | name :: path => (s.child? name).bind fun child => child.follow? path

/-- Whether the request asks for every name along the path and the schema follows it. -/
def follows (s : Schema) (relations : SelectionTree) (path : List String) : Bool :=
  relations.asks path && (s.follow? path).isSome

theorem follows_nil (s : Schema) (tree : SelectionTree) : s.follows tree [] = true := rfl

theorem follows_cons (s : Schema) (tree : SelectionTree) (name : String) (path : List String) :
    s.follows tree (name :: path)
      = (tree.asked? name).any fun asked =>
          (s.child? name).any fun child => child.follows asked.subtree path := by
  rw [follows, AskedTree.asks_cons, follow?]
  cases tree.asked? name <;> cases s.child? name <;> simp [follows]

theorem follows_of_append (h : s.follows tree (front ++ path) = true) :
    s.follows tree front = true := by
  induction front generalizing s tree with
  | nil => rfl
  | cons name front ih =>
    rw [List.cons_append, follows_cons, Option.any_eq_true] at h
    obtain ⟨asked, hasked, h⟩ := h
    obtain ⟨child, hchild, h⟩ := Option.any_eq_true _ _ |>.1 h
    rw [follows_cons, hasked, Option.any_some, hchild, Option.any_some]
    exact ih h

theorem mem_filter_follows :
    path ∈ tree.paths.filter (s.follows tree) ↔ path ≠ [] ∧ s.follows tree path = true := by
  rw [List.mem_filter]
  refine and_congr_left fun h => ⟨AskedTree.ne_nil_of_mem_paths, fun hne => ?_⟩
  exact AskedTree.mem_paths_of_asks hne (Bool.and_eq_true _ _ ▸ h).1

theorem filter_follows_map (s : Schema) (tree : SelectionTree) (name : String)
    (below : List (List String)) :
    (([] :: below).map (name :: ·)).filter (s.follows tree)
      = match tree.asked? name, s.child? name with
        | some asked, some child =>
          ([] :: below.filter (child.follows asked.subtree)).map (name :: ·)
        | _, _ => [] := by
  rw [List.filter_map]
  cases hasked : tree.asked? name with
  | none => simp [Function.comp_def, follows_cons, hasked]
  | some asked =>
    cases hchild : s.child? name with
    | none => simp [Function.comp_def, follows_cons, hchild]
    | some child =>
      rw [List.filter_cons_of_pos (by simp [follows_cons, hasked, hchild, follows_nil])]
      simp [Function.comp_def, follows_cons, hasked, hchild]

/-- The relations that are reached stand at the paths to join, in the order of these. -/
theorem reached_forall₂ (s : Schema) {tree : SelectionTree} (front : List String)
    (ht : tree.Unambiguous) :
    List.Forall₂ (fun path r => r.1 = front ++ path ∧ s.follow? path = some r.2)
      (tree.paths.filter (s.follows tree)) (s.reached front tree) := by
  -- The names are looked up in the whole tree while its entries are gone through.
  suffices h : ∀ entries : SelectionTree, (∀ e ∈ entries, e ∈ tree) →
      List.Forall₂ (fun path r => r.1 = front ++ path ∧ s.follow? path = some r.2)
        (entries.paths.filter (s.follows tree)) (s.reached front entries) from
    h tree fun _ he => he
  intro entries sub
  induction entries with
  | nil => simp [AskedTree.paths, reached]
  | cons e rest ih =>
    obtain ⟨name, asked⟩ := e
    have hm : (name, asked) ∈ tree := sub _ List.mem_cons_self
    have hsize := sizeOf_subtree_lt hm
    rw [AskedTree.paths_cons, List.filter_append, reached_cons, filter_follows_map,
      AskedTree.asked?, ht.get?_of_mem hm, Option.filter_some]
    refine List.rel_append ?_ (ih fun e he => sub e (List.mem_cons_of_mem _ he))
    by_cases hon : asked.isSelected = true
    · rw [if_pos hon, if_pos hon]
      cases hchild : s.child? name with
      | none => exact .nil
      | some child =>
        have hbelow := reached_forall₂ child (front ++ [name]) (ht.subtree_of_mem hm)
        simp only [Option.toList_some, List.flatMap_cons, List.flatMap_nil, List.append_nil,
          List.map_cons]
        refine .cons ⟨rfl, by rw [follow?, hchild]; rfl⟩ (List.forall₂_map_left_iff.2 ?_)
        refine hbelow.imp fun path r h => ⟨?_, ?_⟩
        · rw [h.1, List.append_assoc, List.singleton_append]
        · rw [follow?, hchild]
          exact h.2
    · rw [if_neg hon, if_neg hon]
      exact .nil
termination_by sizeOf tree

theorem joinLines_eq (ht : tree.Unambiguous) :
    s.joinLines tree
      = (tree.paths.filter (s.follows tree)).filterMap fun path => (s.follow? path).map joinLine := by
  have h := reached_forall₂ s [] ht
  rw [joinLines]
  generalize tree.paths.filter (s.follows tree) = paths at h ⊢
  generalize s.reached [] tree = relations at h ⊢
  induction h with
  | nil => rfl
  | cons hr _ ih => rw [List.map_cons, ih, List.filterMap_cons, hr.2]; rfl

/-- The joins are the lines of the paths that the request asks for and the schema follows, in the
order in which the request writes these: one line for each path, no path twice, and each line
behind that of the path one name shorter. -/
theorem joinLines_in_order (hr : relations.NamesDistinct) :
    let joined := relations.paths.filter (s.follows relations)
    List.Forall₂ (fun path line => ∃ node, s.follow? path = some node
          ∧ line = "LEFT JOIN " ++ node.table ++ " ON " ++ node.joinCondition)
        joined (s.joinLines relations)
      ∧ (∀ path, path ∈ joined ↔ path ≠ [] ∧ s.follows relations path = true)
      ∧ (s.joinLines relations).length
        = {path | path ≠ [] ∧ s.follows relations path = true}.ncard
      ∧ joined.Nodup
      ∧ ∀ front path name behind, joined = front ++ (path ++ [name]) :: behind →
          path = [] ∨ path ∈ front := by
  intro joined
  have hlines : List.Forall₂
      (fun path line => ∃ node, s.follow? path = some node
        ∧ line = "LEFT JOIN " ++ node.table ++ " ON " ++ node.joinCondition)
      joined (s.joinLines relations) := by
    refine List.forall₂_map_right_iff.2 ((reached_forall₂ s [] hr.unambiguous).imp ?_)
    exact fun path r h => ⟨r.2, h.2, rfl⟩
  have hmem (path : List String) :
      path ∈ joined ↔ path ≠ [] ∧ s.follows relations path = true := mem_filter_follows
  have hpairwise : joined.Pairwise fun p q => ¬ q <+: p :=
    (AskedTree.pairwise_paths hr).filter _
  have hnodup : joined.Nodup := by
    refine hpairwise.imp ?_
    rintro p q h rfl
    exact h (List.prefix_refl p)
  refine ⟨hlines, hmem, ?_, hnodup, fun front path name behind he => ?_⟩
  · rw [← hlines.length_eq, ← List.toFinset_card_of_nodup hnodup, ← Set.ncard_coe_finset]
    congr 1
    ext path
    simp [hmem]
  · by_cases hne : path = []
    · exact .inl hne
    · -- The path is joined too, and it does not come behind a path that continues it.
      have hlast : path ++ [name] ∈ joined := he ▸ List.mem_append_right _ List.mem_cons_self
      have hpath : path ∈ joined := (hmem _).2 ⟨hne, follows_of_append ((hmem _).1 hlast).2⟩
      rw [he] at hpath hpairwise
      rcases List.mem_append.1 hpath with h | h
      · exact .inr h
      · rcases List.mem_cons.1 h with h | h
        · simp at h
        · obtain ⟨-, hp, -⟩ := List.pairwise_append.1 hpairwise
          exact ((List.pairwise_cons.1 hp).1 path h (List.prefix_append ..)).elim

/-- An owner that is no relation of a user is not joined; a role and what it gives access to are, in
this order. -/
theorem joinLines_in_order_access :
    let access := build "access" [.columns ["id"]]
    let role := build "role" [.columns ["id"], .relation "access" access]
    let user := build "user" [.columns ["id"], .relation "role" role]
    let relations : SelectionTree :=
      [("role", .tree [("access", .leaf true), ("owner", .leaf true)])]
    let joined := [["role"], ["role", "access"]]
    relations.NamesDistinct
      ∧ List.Forall₂ (fun path line => ∃ node, user.follow? path = some node
          ∧ line = "LEFT JOIN " ++ node.table ++ " ON " ++ node.joinCondition)
        joined (user.joinLines relations)
      ∧ (∀ path, path ∈ joined ↔ path ≠ [] ∧ user.follows relations path = true)
      ∧ (user.joinLines relations).length
        = {path | path ≠ [] ∧ user.follows relations path = true}.ncard := by
  intro access role user relations joined
  have hbelow : AskedTree.NamesDistinct [("access", .leaf true), ("owner", .leaf true)] := by
    refine .mk (by decide) fun {name s} hm => ?_
    rcases List.mem_pair.1 hm with h | h <;> cases h <;> exact .nil
  have hr : relations.NamesDistinct := .singleton hbelow
  have hjoined : relations.paths.filter (user.follows relations) = joined := by cbv
  obtain ⟨hlines, hmem, hlength, -⟩ := joinLines_in_order (s := user) hr
  rw [hjoined] at hlines hmem
  exact ⟨hr, hlines, hmem, hlength⟩

end Schema

end QuerySql
