import Mathlib
import QuerySql.Proofs.Counting
import QuerySql.Proofs.TreeLeaves

/-!
# Items in the order in which they first come

What rows are ordered and grouped by is read from the leaves of a tree in the order in which it is
written (`AskedTree.leaves`). Different leaves may give one item. The lists hold each item once,
where it first comes (`FirstsOf`), and rows are grouped exactly where a leaf of the groups is true
(`items_firsts`).
-/

namespace QuerySql

/-! ## What comes first -/

section

variable {α : Type} {leaves : List α} {gives : α → String → Prop} {items : List String}

/-- Whether a list holds what the leaves give, each item once and in the order in which the items
first come: the leaves up to some place give the item in front and not the one behind. -/
structure FirstsOf (leaves : List α) (gives : α → String → Prop) (items : List String) : Prop where
  nodup : items.Nodup
  mem : ∀ item, item ∈ items ↔ ∃ leaf ∈ leaves, gives leaf item
  order : items.Pairwise fun first second => ∃ upTo, upTo <+: leaves
    ∧ (∃ leaf ∈ upTo, gives leaf first) ∧ ∀ leaf ∈ upTo, ¬ gives leaf second

namespace FirstsOf

theorem nil (gives : α → String → Prop) : FirstsOf [] gives [] := ⟨.nil, by simp, .nil⟩

theorem order_append (h : FirstsOf leaves gives items) (behind : List α) :
    items.Pairwise fun first second => ∃ upTo, upTo <+: leaves ++ behind
      ∧ (∃ leaf ∈ upTo, gives leaf first) ∧ ∀ leaf ∈ upTo, ¬ gives leaf second :=
  h.order.imp fun ⟨upTo, hupTo, hgives⟩ =>
    ⟨upTo, hupTo.trans (List.prefix_append leaves behind), hgives⟩

theorem concat_of_mem (h : FirstsOf leaves gives items) {leaf : α}
    (old : ∀ item, gives leaf item → item ∈ items) : FirstsOf (leaves ++ [leaf]) gives items := by
  refine ⟨h.nodup, fun item => ⟨fun hitem => ?_, ?_⟩, h.order_append [leaf]⟩
  · obtain ⟨l, hl, hgives⟩ := (h.mem item).1 hitem
    exact ⟨l, List.mem_append_left _ hl, hgives⟩
  · rintro ⟨l, hl, hgives⟩
    rcases List.mem_append.1 hl with hl | hl
    · exact (h.mem item).2 ⟨l, hl, hgives⟩
    · rw [List.mem_singleton.1 hl] at hgives
      exact old item hgives

theorem concat_of_not_mem (h : FirstsOf leaves gives items) {leaf : α} {item : String}
    (given : ∀ other, gives leaf other ↔ other = item) (new : item ∉ items) :
    FirstsOf (leaves ++ [leaf]) gives (items ++ [item]) := by
  refine ⟨?_, fun other => ?_, ?_⟩
  · rw [List.nodup_append]
    refine ⟨h.nodup, List.nodup_singleton item, fun a ha b hb hab => new ?_⟩
    rwa [← List.mem_singleton.1 hb, ← hab]
  · simp only [List.mem_append, List.mem_singleton, h.mem]
    constructor
    · rintro (⟨l, hl, hgives⟩ | rfl)
      · exact ⟨l, .inl hl, hgives⟩
      · exact ⟨leaf, .inr rfl, (given other).2 rfl⟩
    · rintro ⟨l, hl | rfl, hgives⟩
      · exact .inl ⟨l, hl, hgives⟩
      · exact .inr ((given other).1 hgives)
  · rw [List.pairwise_append]
    refine ⟨h.order_append [leaf], List.pairwise_singleton _ _, fun first hfirst second hs => ?_⟩
    refine ⟨leaves, List.prefix_append leaves [leaf], (h.mem first).1 hfirst, fun l hl hgives => ?_⟩
    rw [List.mem_singleton.1 hs] at hgives
    exact new ((h.mem item).2 ⟨l, hl, hgives⟩)

/-- What the leaves give, without repetition. -/
theorem of_filterMap {item? : α → Option String}
    (given : ∀ leaf item, item? leaf = some item ↔ gives leaf item) (leaves : List α) :
    FirstsOf leaves gives (distinct (leaves.filterMap item?)) := by
  induction leaves using List.reverseRecOn with
  | nil => exact nil gives
  | append_singleton leaves leaf ih =>
    rw [List.filterMap_append]
    cases hitem : item? leaf with
    | none =>
      rw [List.filterMap_cons_none hitem, List.filterMap_nil, List.append_nil]
      refine ih.concat_of_mem fun item hgives => ?_
      rw [(given leaf item).2 hgives] at hitem
      cases hitem
    | some item =>
      have hgiven (other : String) : gives leaf other ↔ other = item := by
        rw [← given, hitem, Option.some_inj]
        exact eq_comm
      rw [List.filterMap_cons_some hitem, List.filterMap_nil, distinct_concat]
      split
      · rename_i hold
        refine ih.concat_of_mem fun other hgives => ?_
        rw [(hgiven other).1 hgives]
        exact mem_distinct.2 hold
      · rename_i hnew
        exact ih.concat_of_not_mem hgiven (mt mem_distinct.1 hnew)

end FirstsOf

end

/-! ## What leaves give -/

/-- The item of a token that names a direction, in upper or lower case. Others give none. -/
inductive Sorting.Gives (root : String) (leaf : TreeLeaf String) : String → Prop where
  | ascending (asc : leaf.value.toLower = "asc") : Gives root leaf (leaf.column root ++ " ASC")
  | descending (desc : leaf.value.toLower = "desc") : Gives root leaf (leaf.column root ++ " DESC")

/-- The item of a true flag. A false one gives none. -/
inductive Selection.Gives (root : String) (leaf : TreeLeaf Bool) : String → Prop where
  | on (h : leaf.value = true) : Gives root leaf (leaf.column root)

namespace Direction

/-- Whether a token is a word does not depend on the case that both are brought to. -/
theorem toUpper_eq_iff {token upper lower : String} (hlowerTo : lower.toUpper = upper)
    (hupperTo : upper.toLower = lower) : token.toUpper = upper ↔ token.toLower = lower := by
  have hlower (s : String) : s.toUpper.toLower = s.toLower := by
    rw [← String.toList_inj, String.toUpper, String.toLower, String.toLower, String.toList_map,
      String.toList_map, String.toList_map, List.map_map]
    exact List.map_congr_left fun c _ => Char.toLower_toUpper_eq_toLower c
  have hupper (s : String) : s.toLower.toUpper = s.toUpper := by
    rw [← String.toList_inj, String.toUpper, String.toLower, String.toUpper, String.toList_map,
      String.toList_map, String.toList_map, List.map_map]
    exact List.map_congr_left fun c _ => Char.toUpper_toLower_eq_toUpper c
  constructor
  · intro h
    rw [← hlower, h, hupperTo]
  · intro h
    rw [← hupper, h, hlowerTo]

theorem ofToken?_eq_some_iff {token : String} {d : Direction} :
    ofToken? token = some d ↔ token.toUpper = d.sql := by
  rw [← String.toList_inj, String.toUpper, String.toList_map]
  simp only [ofToken?]
  split
  · cases d <;> simp_all [sql]
  · split <;> cases d <;> simp_all [sql]

theorem ofToken?_eq_ascending_iff {token : String} :
    ofToken? token = some ascending ↔ token.toLower = "asc" :=
  ofToken?_eq_some_iff.trans (toUpper_eq_iff (by cbv) (by cbv))

theorem ofToken?_eq_descending_iff {token : String} :
    ofToken? token = some descending ↔ token.toLower = "desc" :=
  ofToken?_eq_some_iff.trans (toUpper_eq_iff (by cbv) (by cbv))

end Direction

theorem orderItem?_eq_some_iff {root : String} {leaf : TreeLeaf String} {item : String} :
    leaf.item? orderItem? root = some item ↔ Sorting.Gives root leaf item := by
  rw [TreeLeaf.item?, orderItem?, Option.map_eq_some_iff]
  constructor
  · rintro ⟨d, hd, rfl⟩
    rw [String.append_assoc]
    cases d with
    | ascending => exact .ascending (Direction.ofToken?_eq_ascending_iff.1 hd)
    | descending => exact .descending (Direction.ofToken?_eq_descending_iff.1 hd)
  · rintro (asc | desc)
    · exact ⟨_, Direction.ofToken?_eq_ascending_iff.2 asc, String.append_assoc ..⟩
    · exact ⟨_, Direction.ofToken?_eq_descending_iff.2 desc, String.append_assoc ..⟩

theorem groupItem?_eq_some_iff {root : String} {leaf : TreeLeaf Bool} {item : String} :
    leaf.item? groupItem? root = some item ↔ Selection.Gives root leaf item := by
  rw [TreeLeaf.item?, groupItem?, Option.ite_none_right_eq_some, Option.some_inj]
  constructor
  · rintro ⟨hon, rfl⟩
    exact .on hon
  · rintro ⟨hon⟩
    exact ⟨hon, rfl⟩

/-! ## What rows are ordered and grouped by -/

/-- Rows are ordered by what the tokens give, and grouped by what the flags give: by each item once,
in the order in which the items first come. They are grouped exactly where some flag of the groups
is true. -/
theorem items_firsts :
    (∀ (table : String) (orders : SortingTree),
      FirstsOf orders.leaves (Sorting.Gives table) (orderItems table orders))
    ∧ (∀ (table : String) (groups : SelectionTree),
      FirstsOf groups.leaves (Selection.Gives table) (groupItems table groups))
    ∧ ∀ (c : Compiler) (r : Request), (c.compile r).isGrouped = true
      ↔ ∃ leaf ∈ r.groups.leaves, leaf.value = true := by
  have hgroups (table : String) (groups : SelectionTree) :
      FirstsOf groups.leaves (Selection.Gives table) (groupItems table groups) := by
    rw [groupItems, AskedTree.items_eq]
    exact .of_filterMap (fun _ _ => groupItem?_eq_some_iff) _
  refine ⟨fun table orders => ?_, hgroups, fun c r => ?_⟩
  · rw [orderItems, AskedTree.items_eq]
    exact .of_filterMap (fun _ _ => orderItem?_eq_some_iff) _
  · have hmem := (hgroups c.schema.table r.groups).mem
    rw [Compiler.isGrouped_compile]
    constructor
    · intro h
      obtain ⟨item, hitem⟩ := List.exists_mem_of_ne_nil _ h
      obtain ⟨leaf, hleaf, ⟨hon⟩⟩ := (hmem item).1 hitem
      exact ⟨leaf, hleaf, hon⟩
    · rintro ⟨leaf, hleaf, hon⟩
      exact List.ne_nil_of_mem ((hmem _).2 ⟨leaf, hleaf, .on hon⟩)

/-- Leaves at different depths give one item; another token gives none. -/
example : orderItems "user" [("role", .tree [("user", .tree [("id", .leaf "Asc")])]),
    ("name", .leaf "down"), ("id", .leaf "desc"), ("id", .leaf "ASC")]
      = ["user.id ASC", "user.id DESC"] := by cbv

end QuerySql
