/-!
# Distinct elements

A list without the elements whose key has come before. The others keep their order.
-/

namespace QuerySql

variable {α κ : Type} [DecidableEq κ]

/-- The pairs whose first component has not come before. -/
def firsts : List (κ × α) → List (κ × α)
  | [] => []
  | p :: rest => p :: (firsts rest).filter fun q => q.1 ≠ p.1

/-- The elements whose key has not come before. -/
def distinctBy (key : α → κ) (xs : List α) : List α :=
  (firsts (xs.map fun x => (key x, x))).map Prod.snd

def distinct (xs : List κ) : List κ := distinctBy id xs

theorem distinctBy_nil (key : α → κ) : distinctBy key [] = [] := rfl

theorem mem_firsts {p : κ × α} {ps : List (κ × α)} (h : p ∈ firsts ps) : p ∈ ps := by
  induction ps with
  | nil => cases h
  | cons q rest ih =>
    rcases List.mem_cons.1 h with rfl | h
    · exact List.mem_cons_self
    · exact List.mem_cons_of_mem _ (ih (List.mem_filter.1 h).1)

theorem mem_of_mem_distinctBy {key : α → κ} {x : α} {xs : List α} (h : x ∈ distinctBy key xs) :
    x ∈ xs := by
  obtain ⟨p, hp, rfl⟩ := List.mem_map.1 h
  obtain ⟨y, hy, rfl⟩ := List.mem_map.1 (mem_firsts hp)
  exact hy

theorem distinctBy_cons (key : α → κ) (x : α) (xs : List α) :
    distinctBy key (x :: xs) = x :: (distinctBy key xs).filter fun y => key y ≠ key x := by
  unfold distinctBy
  rw [List.map_cons, firsts, List.map_cons, List.filter_map]
  congr 2
  refine List.filter_congr fun q hq => ?_
  obtain ⟨y, -, rfl⟩ := List.mem_map.1 (mem_firsts hq)
  rfl

theorem distinctBy_eq_nil_iff {key : α → κ} {xs : List α} : distinctBy key xs = [] ↔ xs = [] := by
  cases xs with
  | nil => simp [distinctBy_nil]
  | cons x xs => simp [distinctBy_cons]

theorem distinctBy_sublist (key : α → κ) (xs : List α) : (distinctBy key xs).Sublist xs := by
  induction xs with
  | nil => exact .slnil
  | cons x xs ih =>
    rw [distinctBy_cons]
    exact (List.filter_sublist.trans ih).cons_cons x

theorem exists_mem_distinctBy (key : α → κ) {x : α} {xs : List α} (h : x ∈ xs) :
    ∃ y ∈ distinctBy key xs, key y = key x := by
  induction xs with
  | nil => cases h
  | cons z xs ih =>
    rw [distinctBy_cons]
    by_cases he : key z = key x
    · exact ⟨z, List.mem_cons_self, he⟩
    · have hx : x ∈ xs := (List.mem_cons.1 h).resolve_left fun e => he (e ▸ rfl)
      obtain ⟨y, hy, hyx⟩ := ih hx
      refine ⟨y, List.mem_cons_of_mem _ (List.mem_filter.2 ⟨hy, ?_⟩), hyx⟩
      exact decide_eq_true fun e => he (e.symm.trans hyx)

theorem mem_distinct {x : κ} {xs : List κ} : x ∈ distinct xs ↔ x ∈ xs := by
  refine ⟨mem_of_mem_distinctBy, fun h => ?_⟩
  obtain ⟨y, hy, rfl⟩ := exists_mem_distinctBy id h
  exact hy

theorem nodup_distinct (xs : List κ) : (distinct xs).Nodup := by
  unfold distinct
  induction xs with
  | nil => exact .nil
  | cons x xs ih =>
    rw [distinctBy_cons, List.nodup_cons]
    refine ⟨fun h => ?_, ih.filter _⟩
    simpa using (List.mem_filter.1 h).2

theorem distinct_concat (xs : List κ) (x : κ) :
    distinct (xs ++ [x]) = if x ∈ xs then distinct xs else distinct xs ++ [x] := by
  unfold distinct
  induction xs with
  | nil => rfl
  | cons y xs ih =>
    rw [List.cons_append, distinctBy_cons, distinctBy_cons, ih]
    by_cases hxs : x ∈ xs
    · simp [hxs]
    · by_cases hxy : x = y
      · subst hxy
        simp [hxs]
      · simp [hxs, hxy]

/-- Elements may be dropped before or after, where the key decides which. -/
theorem filter_distinctBy {key : α → κ} {p : α → Bool} (hp : ∀ x y, key x = key y → p x = p y)
    (xs : List α) : (distinctBy key xs).filter p = distinctBy key (xs.filter p) := by
  induction xs with
  | nil => rfl
  | cons x xs ih =>
    rw [distinctBy_cons]
    by_cases hx : p x = true
    · rw [List.filter_cons_of_pos hx, List.filter_cons_of_pos hx, distinctBy_cons, ← ih,
        List.filter_filter, List.filter_filter]
      simp only [Bool.and_comm]
    · rw [List.filter_cons_of_neg hx, List.filter_cons_of_neg hx, ← ih, List.filter_filter]
      refine List.filter_congr fun y _ => ?_
      by_cases hy : p y = true
      · have hne : key y ≠ key x := fun e => hx (hp y x e ▸ hy)
        simp [hy, hne]
      · simp [hy]

theorem map_distinctBy {β : Type} (key : β → κ) (f : α → β) (xs : List α) :
    (distinctBy (fun x => key (f x)) xs).map f = distinctBy key (xs.map f) := by
  induction xs with
  | nil => rfl
  | cons x xs ih =>
    rw [List.map_cons, distinctBy_cons, distinctBy_cons, List.map_cons, ← ih, List.filter_map]
    rfl

end QuerySql
