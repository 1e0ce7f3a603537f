import QuerySql.Entries

/-!
# Sorted entries

Named values in increasing order of their names, character by character. Inserting under a name
that is there replaces the value.
-/

namespace QuerySql.SortedEntries

variable {α : Type}

def insert (name : String) (value : α) : List (String × α) → List (String × α)
  | [] => [(name, value)]
  | (n, v) :: rest =>
    if name = n then (name, value) :: rest
    else if name < n then (name, value) :: (n, v) :: rest
    else (n, v) :: insert name value rest

def ofList (pairs : List (String × α)) : List (String × α) :=
  pairs.foldl (fun entries pair => insert pair.1 pair.2 entries) []

theorem get?_insert (name other : String) (value : α) (entries : List (String × α)) :
    Entries.get? other (insert name value entries)
      = if other = name then some value else Entries.get? other entries := by
  induction entries with
  | nil => grind [insert, Entries.get?]
  | cons e rest ih => obtain ⟨n, v⟩ := e; grind [insert, Entries.get?]

theorem mem_of_mem_insert {name : String} {value : α} {entries : List (String × α)}
    {e : String × α} (h : e ∈ insert name value entries) : e = (name, value) ∨ e ∈ entries := by
  induction entries with
  | nil => exact .inl (List.mem_singleton.1 h)
  | cons d rest ih => obtain ⟨n, v⟩ := d; grind [insert]

/-- Whether each name comes before the next. -/
def Increasing (entries : List (String × α)) : Prop := entries.Pairwise fun a b => a.1 < b.1

theorem increasing_insert {name : String} {value : α} {entries : List (String × α)}
    (h : Increasing entries) : Increasing (insert name value entries) := by
  induction entries with
  | nil => exact List.pairwise_singleton ..
  | cons d rest ih =>
    obtain ⟨n, v⟩ := d
    obtain ⟨hn, hrest⟩ := List.pairwise_cons.1 h
    rw [insert]
    split
    · rename_i he
      exact List.pairwise_cons.2 ⟨he ▸ hn, hrest⟩
    · rename_i hne
      split
      · rename_i hlt
        refine List.pairwise_cons.2 ⟨fun e he => ?_, h⟩
        rcases List.mem_cons.1 he with rfl | he
        · exact hlt
        · exact String.lt_trans hlt (hn e he)
      · rename_i hnlt
        have hlt : n < name := by
          refine Decidable.byContradiction fun hn => hne ?_
          exact String.le_antisymm (String.not_lt.1 hn) (String.not_lt.1 hnlt)
        refine List.pairwise_cons.2 ⟨fun e he => ?_, ih hrest⟩
        rcases mem_of_mem_insert he with rfl | he
        · exact hlt
        · exact hn e he

theorem ofList_concat (pairs : List (String × α)) (name : String) (value : α) :
    ofList (pairs ++ [(name, value)]) = insert name value (ofList pairs) := by
  simp [ofList]

theorem increasing_ofList (pairs : List (String × α)) : Increasing (ofList pairs) :=
  List.foldlRecOn pairs _ (motive := Increasing) .nil fun _ h _ _ => increasing_insert h

theorem mem_of_mem_ofList {e : String × α} {pairs : List (String × α)} (h : e ∈ ofList pairs) :
    e ∈ pairs := by
  refine List.foldlRecOn pairs _ (motive := fun entries => e ∈ entries → e ∈ pairs)
    List.not_mem_nil.elim ?_ h
  intro entries ih pair hpair he
  rcases mem_of_mem_insert he with rfl | he
  · exact hpair
  · exact ih he

/-- Each name has the value that came last. -/
theorem get?_ofList (name : String) (pairs : List (String × α)) :
    Entries.get? name (ofList pairs) = Entries.get? name pairs.reverse := by
  suffices h : ∀ reversed : List (String × α),
      Entries.get? name (ofList reversed.reverse) = Entries.get? name reversed by
    simpa using h pairs.reverse
  intro reversed
  induction reversed with
  | nil => rfl
  | cons p rest ih =>
    obtain ⟨n, v⟩ := p
    rw [List.reverse_cons, ofList_concat, get?_insert, ih, Entries.get?]
    by_cases h : n = name
    · simp [h]
    · simp [h, Ne.symm h]

theorem insert_eq_concat {name : String} {entries : List (String × α)}
    (h : ∀ e ∈ entries, e.1 < name) (value : α) :
    insert name value entries = entries ++ [(name, value)] := by
  induction entries with
  | nil => rfl
  | cons d rest ih =>
    obtain ⟨n, v⟩ := d
    have hn : n < name := h _ List.mem_cons_self
    have hne : name ≠ n := fun he => String.lt_irrefl n (he ▸ hn)
    rw [insert, if_neg hne, if_neg (String.lt_asymm hn),
      ih fun e he => h e (List.mem_cons_of_mem _ he), List.cons_append]

theorem ofList_eq_self {entries : List (String × α)} (h : Increasing entries) :
    ofList entries = entries := by
  suffices hs : ∀ front pairs : List (String × α), Increasing (front ++ pairs) →
      pairs.foldl (fun entries pair => insert pair.1 pair.2 entries) front = front ++ pairs from
    hs [] entries h
  intro front pairs h
  induction pairs generalizing front with
  | nil => exact (List.append_nil front).symm
  | cons p rest ih =>
    have hp : ∀ e ∈ front, e.1 < p.1 := fun e he =>
      (List.pairwise_append.1 h).2.2 e he p List.mem_cons_self
    rw [List.foldl_cons, insert_eq_concat hp]
    exact (ih _ (by simpa using h)).trans (by simp)

end QuerySql.SortedEntries
