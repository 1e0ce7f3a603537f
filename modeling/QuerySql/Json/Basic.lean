import QuerySql.Entries
import QuerySql.Number.Shortest

/-!
# JSON values

A JSON value keeps the entries of its objects in document order, and tells integers from other
numbers. `weight` counts a value's constructors and the characters of its strings and names; a
value read from text never weighs more than the text is long.
-/

namespace QuerySql

/-- A JSON number: an integer, or else a binary64 number. -/
inductive Number where
  | int (n : Int)
  | float (x : Binary64)
  deriving DecidableEq, Repr

inductive Json where
  | null
  | bool (b : Bool)
  | number (n : Number)
  | string (s : String)
  | array (items : List Json)
  | object (entries : List (String × Json))

namespace Json

instance : Inhabited Json := ⟨null⟩

mutual

/-- The size of a value: one for each value in it, and the lengths of its strings and names. -/
def weight : Json → Nat
  | null | bool _ | number _ => 1
  | string s => s.length + 1
  | array items => weightOfItems items + 1
  | object entries => weightOfEntries entries + 1

def weightOfItems : List Json → Nat
  | [] => 0
  | v :: rest => weight v + weightOfItems rest

def weightOfEntries : List (String × Json) → Nat
  | [] => 0
  | (name, v) :: rest => name.length + weight v + weightOfEntries rest

end

theorem weight_pos (v : Json) : 0 < weight v := by
  cases v <;> simp [weight]

theorem weight_le_of_mem {v : Json} {items : List Json} (h : v ∈ items) :
    weight v ≤ weightOfItems items := by
  induction items with
  | nil => cases h
  | cons w rest ih => rcases List.mem_cons.1 h with rfl | h <;> grind [weightOfItems]

theorem weight_entry_le_of_mem {name : String} {v : Json} {entries : List (String × Json)}
    (h : (name, v) ∈ entries) : name.length + weight v ≤ weightOfEntries entries := by
  induction entries with
  | nil => cases h
  | cons e rest ih =>
    obtain ⟨n, w⟩ := e
    rcases List.mem_cons.1 h with h | h
    · cases h; simp only [weightOfEntries]; omega
    · have := ih h; simp only [weightOfEntries]; omega

theorem weight_le_of_mem_entries {name : String} {v : Json} {entries : List (String × Json)}
    (h : (name, v) ∈ entries) : weight v ≤ weightOfEntries entries :=
  Nat.le_trans (Nat.le_add_left ..) (weight_entry_le_of_mem h)

theorem weightOfEntries_put_le (name : String) (v : Json) (entries : List (String × Json)) :
    weightOfEntries (Entries.put name v entries)
      ≤ weightOfEntries entries + name.length + weight v := by
  induction entries with
  | nil => simp only [Entries.put, weightOfEntries]; omega
  | cons e rest ih =>
    obtain ⟨n, w⟩ := e
    simp only [Entries.put]
    split
    · subst_vars; simp only [weightOfEntries]; omega
    · simp only [weightOfEntries]; omega

/-- Keeping the last value of each name does not add weight. -/
theorem weightOfEntries_ofList_le (pairs : List (String × Json)) :
    weightOfEntries (Entries.ofList pairs) ≤ weightOfEntries pairs := by
  suffices h : ∀ entries : List (String × Json),
      weightOfEntries (pairs.foldl (fun es (p : String × Json) => Entries.put p.1 p.2 es) entries)
        ≤ weightOfEntries entries + weightOfEntries pairs by
    simpa [Entries.ofList, weightOfEntries] using h []
  induction pairs with
  | nil => intro entries; simp [weightOfEntries]
  | cons p rest ih =>
    intro entries
    obtain ⟨n, v⟩ := p
    have h₁ := ih (Entries.put n v entries)
    have h₂ := weightOfEntries_put_le n v entries
    simp only [List.foldl_cons, weightOfEntries]
    omega

end Json

end QuerySql
