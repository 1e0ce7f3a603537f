/-!
# Entries

Named values in the order in which their names first arrived. Putting a value under a name that is
already there replaces the value and keeps the place.
-/

namespace QuerySql

/-- Named values; the names that `put` has built are distinct. -/
abbrev Entries (α : Type) := List (String × α)

namespace Entries

variable {α : Type}

/-- The entries with `value` under `name`: in place if the name is there, else at the end. -/
def put (name : String) (value : α) : Entries α → Entries α
  | [] => [(name, value)]
  | (n, v) :: rest => if n = name then (n, value) :: rest else (n, v) :: put name value rest

def get? (name : String) : Entries α → Option α
  | [] => none
  | (n, v) :: rest => if n = name then some v else get? name rest

/-- The entries after putting each pair in turn. -/
def ofList (pairs : List (String × α)) : Entries α :=
  pairs.foldl (fun entries pair => entries.put pair.1 pair.2) []

def names (entries : Entries α) : List String := entries.map Prod.fst

theorem names_put (name : String) (value : α) (entries : Entries α) :
    names (put name value entries)
      = if name ∈ names entries then names entries else names entries ++ [name] := by
  induction entries with
  | nil => simp [put, names]
  | cons e rest ih =>
    obtain ⟨n, v⟩ := e
    by_cases h : n = name
    · simp [put, names, h]
    · have h' : ¬ name = n := fun e => h e.symm
      simp only [names] at ih
      simp only [put, h, if_false, names, List.map_cons, ih, List.mem_cons, h', false_or]
      split <;> simp [*]

/-- Where no name is repeated, every entry is the one that its name finds. -/
theorem get?_of_mem {name : String} {value : α} {entries : Entries α}
    (nodup : (names entries).Nodup) (h : (name, value) ∈ entries) :
    get? name entries = some value := by
  induction entries with
  | nil => cases h
  | cons e rest ih =>
    obtain ⟨n, v⟩ := e
    obtain ⟨hn, nodup⟩ := List.nodup_cons.1 nodup
    rcases List.mem_cons.1 h with he | h
    · cases he
      exact if_pos rfl
    · have hne : n ≠ name := fun e => hn (e ▸ List.mem_map.2 ⟨_, h, rfl⟩)
      exact (if_neg hne).trans (ih nodup h)

theorem mem_of_mem_put {name : String} {value : α} {entries : Entries α} {e : String × α}
    (h : e ∈ put name value entries) : e = (name, value) ∨ e ∈ entries := by
  induction entries with
  | nil => exact .inl (List.mem_singleton.1 h)
  | cons d rest ih => obtain ⟨n, v⟩ := d; grind [put]

theorem nodup_names_put {name : String} {value : α} {entries : Entries α}
    (h : (names entries).Nodup) : (names (put name value entries)).Nodup := by
  rw [names_put]
  split
  · exact h
  · rename_i hn
    have hne : ∀ n ∈ names entries, n ≠ name := fun n hm e => hn (e ▸ hm)
    simpa [List.nodup_append, h] using hne

theorem nodup_names_ofList (pairs : List (String × α)) : (names (ofList pairs)).Nodup := by
  refine List.foldlRecOn pairs _ (motive := fun entries => (names entries).Nodup) .nil ?_
  intro entries h pair _
  exact nodup_names_put h

theorem put_eq_concat {name : String} {entries : Entries α} (h : name ∉ names entries)
    (value : α) : put name value entries = entries ++ [(name, value)] := by
  induction entries with
  | nil => rfl
  | cons e rest ih =>
    obtain ⟨n, v⟩ := e
    obtain ⟨hne, hrest⟩ := not_or.1 (mt List.mem_cons.2 h)
    rw [put, if_neg (Ne.symm hne), ih hrest, List.cons_append]

/-- Where no name is repeated, the entries are the pairs. -/
theorem ofList_eq_self {pairs : List (String × α)} (h : (names pairs).Nodup) :
    ofList pairs = pairs := by
  suffices hs : ∀ front pairs : List (String × α), (names (front ++ pairs)).Nodup →
      pairs.foldl (fun entries pair => put pair.1 pair.2 entries) front = front ++ pairs from
    hs [] pairs h
  intro front pairs h
  induction pairs generalizing front with
  | nil => exact (List.append_nil front).symm
  | cons p rest ih =>
    have hp : p.1 ∉ names front := by
      rw [names, List.map_append, List.nodup_append] at h
      exact fun hmem => h.2.2 p.1 hmem p.1 List.mem_cons_self rfl
    rw [List.foldl_cons, put_eq_concat hp]
    exact (ih _ (by simpa using h)).trans (by simp)

theorem mem_of_mem_ofList {e : String × α} {pairs : List (String × α)} (h : e ∈ ofList pairs) :
    e ∈ pairs := by
  refine List.foldlRecOn pairs _ (motive := fun entries => e ∈ entries → e ∈ pairs)
    List.not_mem_nil.elim ?_ h
  intro entries ih pair hpair he
  rcases mem_of_mem_put he with rfl | he
  · exact hpair
  · exact ih he

end Entries

end QuerySql
