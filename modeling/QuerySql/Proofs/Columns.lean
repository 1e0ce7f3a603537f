import Mathlib
import QuerySql.Proofs.Scanner
import QuerySql.Proofs.Sites

/-!
# The columns of conditions on rows

The names of the objects around a condition tell its column, and of these only the last two: the
last is the column, and the one before it the table (`Filter.column_of_names`). Lists have no say,
and neither has an `$And`. A filter and its formula have the same places (`Formula.at?`), so what
is said of a value in the filter is said of the formula at that place.
-/

namespace QuerySql

namespace Formula

def parts : Formula → List Formula
  | leaf _ => []
  | all parts | fields parts | any parts => parts

/-- The formula at a place, which says part by part where to go. -/
def at? (f : Formula) : List Nat → Option Formula
  | [] => some f
  | i :: place => f.parts[i]?.bind fun g => g.at? place

theorem at?_of_part {f g : Formula} {i : Nat} (h : f.parts[i]? = some g) (place : List Nat) :
    f.at? (i :: place) = g.at? place := by
  rw [at?, h, Option.bind_some]

end Formula

/-- `ValueAt v place keys w`: at a place under a value of a column there is a value `w`, inside
objects under the names `keys`. -/
inductive ValueAt : Json → List Nat → List String → Json → Prop where
  | here (v : Json) : ValueAt v [] [] v
  | item {items : List Json} {i : Nat} {u w : Json} {place : List Nat} {keys : List String}
    (mem : items[i]? = some u) (further : ValueAt u place keys w) :
    ValueAt (.array items) (i :: place) keys w
  | condition {s : String} {items : List Json} {i : Nat} {u w : Json} {place : List Nat}
    {keys : List String} (hs : Condition.expressionOf s = .operator (.allOf items))
    (mem : items[i]? = some u) (further : ValueAt u place keys w) :
    ValueAt (.string s) (i :: place) keys w
  | member {entries : List (String × Json)} {i : Nat} {key : String} {u w : Json}
    {place : List Nat} {keys : List String} (mem : entries[i]? = some (key, u))
    (further : ValueAt u place keys w) : ValueAt (.object entries) (i :: place) (key :: keys) w

/-- `ConditionAt v place keys w`: at a place in a filter there is a value `w` of a column, inside
objects under the names `keys`. -/
inductive ConditionAt : Json → List Nat → List String → Json → Prop where
  | alternative {items : List Json} {i : Nat} {u w : Json} {place : List Nat} {keys : List String}
    (mem : items[i]? = some u) (further : ConditionAt u place keys w) :
    ConditionAt (.array items) (i :: place) keys w
  | member {entries : List (String × Json)} {i : Nat} {key : String} {u w : Json}
    {place : List Nat} {keys : List String} (mem : entries[i]? = some (key, u))
    (further : ValueAt u place keys w) : ConditionAt (.object entries) (i :: place) (key :: keys) w

variable {v w : Json} {place : List Nat} {keys : List String}

/-! ## Columns from names -/

theorem lastPart_eq_self {key : String} (h : '.' ∉ key.toList) : lastPart key = key := by
  obtain ⟨-, hall | ⟨front, hf⟩⟩ := lastPart_spec key
  · exact hall
  · exact absurd (hf ▸ List.mem_append_right _ List.mem_cons_self) h

theorem Scope.qualify_of_plain (scope : Scope) {key : String} (hpoint : '.' ∉ key.toList)
    (hopen : '(' ∉ key.toList) : scope.qualify key = scope.table ++ "." ++ key := by
  refine if_neg fun h => ?_
  obtain ⟨c, hc, he⟩ := List.any_eq_true.1 h
  simp only [Bool.or_eq_true, beq_iff_eq] at he
  rcases he with rfl | rfl
  · exact hpoint hc
  · exact hopen hc

theorem columnBelow_of_names {root first table key : String} {front : List String}
    (h : first :: keys = front ++ [table, key]) (ht : '.' ∉ table.toList) :
    columnBelow (root ++ "." ++ first) keys = table ++ "." ++ key := by
  cases front with
  | nil =>
    obtain ⟨rfl, rfl⟩ := List.cons.inj h
    show lastPart (root ++ "." ++ first) ++ "." ++ key = _
    rw [lastPart_append, lastPart_eq_self ht]
  | cons outer front =>
    have hkeys : keys = front ++ [table] ++ [key] := by simpa using (List.cons.inj h).2
    rw [hkeys, columnBelow_append_append, lastPart_eq_self ht]

namespace Condition

variable {scope : Scope} {clause : Clause} {column : String}

/-- At each place the formula of a value is that of the value there, on the column below. -/
theorem at?_formula (h : ValueAt v place keys w) :
    ((ofJson v).formula scope clause column).at? place
      = some ((ofJson w).formula scope clause (columnBelow column keys)) := by
  induction h generalizing column with
  | here v => rfl
  | @item items i u w place keys mem _ ih =>
    have hpart : ((ofJson (.array items)).formula scope clause column).parts[i]?
        = some ((ofJson u).formula scope clause column) := by
      simp [formula_array, Formula.parts, mem]
    exact (Formula.at?_of_part hpart place).trans ih
  | @condition s items i u w place keys hs mem _ ih =>
    have hpart : ((ofJson (.string s)).formula scope clause column).parts[i]?
        = some ((ofJson u).formula scope clause column) := by
      simp [formula_allOf _ _ _ hs, Formula.parts, mem]
    exact (Formula.at?_of_part hpart place).trans ih
  | @member entries i key u w place keys mem _ ih =>
    have hpart : ((ofJson (.object entries)).formula scope clause column).parts[i]?
        = some ((ofJson u).formula scope clause (lastPart column ++ "." ++ key)) := by
      simp [formula_object, Formula.parts, mem]
    exact (Formula.at?_of_part hpart place).trans ih

end Condition

namespace Filter

theorem at?_formula (scope : Scope) (clause : Clause) (list : Bool)
    (h : ConditionAt v place keys w) : ∃ first more,
    keys = first :: more ∧ ((ofJsonWithin list v).formula scope clause).at? place
      = some ((Condition.ofJson w).formula scope clause
          (columnBelow (scope.qualify first) more)) := by
  induction h generalizing list with
  | @alternative items i u w place keys mem _ ih =>
    obtain ⟨first, more, hkeys, hu⟩ := ih true
    have hpart : ((ofJsonWithin list (.array items)).formula scope clause).parts[i]?
        = some ((ofJsonWithin true u).formula scope clause) := by
      simp [formula_array, Formula.parts, mem]
    exact ⟨first, more, hkeys, (Formula.at?_of_part hpart place).trans hu⟩
  | @member entries i key u w place keys mem further =>
    have hpart : ((ofJsonWithin list (.object entries)).formula scope clause).parts[i]?
        = some ((Condition.ofJson u).formula scope clause (scope.qualify key)) := by
      simp [formula_object, Formula.parts, mem]
    exact ⟨key, keys, rfl, (Formula.at?_of_part hpart place).trans (Condition.at?_formula further)⟩

/-- Of the names around a condition the last two make its column, or the root table and the only
one; and the conditions that an `$And` holds are on the column of the `$And`. To qualify the column
once more changes nothing. -/
theorem column_of_names (scope : Scope) (h : ConditionAt v place keys w)
    (hk : ∀ key ∈ keys, '.' ∉ key.toList ∧ '(' ∉ key.toList) :
    ∃ column, (∀ key, keys = [key] → column = scope.table ++ "." ++ key)
      ∧ (∀ front table key, keys = front ++ [table, key] → column = table ++ "." ++ key)
      ∧ scope.qualify column = column
      ∧ ((ofJson v).formula scope .rows).at? place
          = some ((Condition.ofJson w).formula scope .rows column)
      ∧ ∀ s items, w = .string s → Condition.expressionOf s = .operator (.allOf items) →
          ((ofJson v).formula scope .rows).at? place
            = some (.all (items.map fun u => (Condition.ofJson u).formula scope .rows column)) := by
  obtain ⟨first, more, rfl, hplace⟩ := at?_formula scope .rows false h
  obtain ⟨hpoint, hopen⟩ := hk first List.mem_cons_self
  rw [scope.qualify_of_plain hpoint hopen] at hplace
  refine ⟨_, fun key hone => ?_, fun front table key hmore => ?_,
    scope.qualify_columnBelow (scope.qualify_member ..) more, hplace, fun s items hw hs => ?_⟩
  · cases hone
    rfl
  · exact columnBelow_of_names hmore (hk table (hmore ▸ by simp)).1
  · rwa [hw, Condition.formula_allOf _ _ _ hs] at hplace

/-- Two conditions on the name of a role, behind two lists and inside two objects. -/
theorem column_of_names_role :
    let v := Json.array [.object [("user",
      .array [.object [("role", .object [("name", .string "$And($IsNull(),7)")])]])]]
    let keys := ["user", "role", "name"]
    ConditionAt v [0, 0, 0, 0, 0] keys (.string "$And($IsNull(),7)")
      ∧ (∀ key ∈ keys, '.' ∉ key.toList ∧ '(' ∉ key.toList)
      ∧ ((ofJson v).formula ⟨"order", false⟩ .rows).at? [0, 0, 0, 0, 0]
          = some (.all [.leaf "(role.name = '')", .leaf "(role.name = 7)"]) := by
  intro v keys
  have hcall : Expression.Shape.of (Text.trim (Placeholder.strip "$And($IsNull(),7)").toList)
      = .call "$And" "$IsNull(),7".toList := by cbv
  have hsplit : Items.split "$IsNull(),7".toList = [.string "$IsNull()", .number (.int 7)] := by
    rw [Items.split, Pieces.pieces_eq_scan]
    rfl
  have harg : Argument.decode "$IsNull(),7".toList = .string "$IsNull(),7" :=
    Argument.decode_of_plain (by decide) (by decide) (by decide) (by decide)
  have hand : Condition.expressionOf "$And($IsNull(),7)"
      = .operator (.allOf [.string "$IsNull()", .number (.int 7)]) := by
    refine Expression.read_call hcall (by decide) ?_
    rw [harg, ← hsplit]
    rfl
  have hnull : Condition.expressionOf "$IsNull()" = .operator (.test .isNull) := by cbv
  have hk : ∀ key ∈ keys, '.' ∉ key.toList ∧ '(' ∉ key.toList := by decide
  have h : ConditionAt v [0, 0, 0, 0, 0] keys (.string "$And($IsNull(),7)") :=
    .alternative rfl (.member rfl (.item rfl (.member rfl (.member rfl (.here _)))))
  obtain ⟨column, -, htwo, -, -, hall⟩ := column_of_names ⟨"order", false⟩ h hk
  refine ⟨h, hk, (hall _ _ rfl hand).trans ?_⟩
  rw [htwo ["user"] "role" "name" rfl, List.map_cons, List.map_cons,
    Condition.ofJson_operator hnull, Condition.ofJson_number]
  rfl

end Filter

end QuerySql
