import QuerySql.Filter.Basic
import QuerySql.Proofs.Reading

/-!
# The sites of a filter

A site is a leaf condition or an aggregate in a filter, with the names of the objects around it and
the column that it stands on. The pieces in the text of a filter are written by its sites, from left
to right: on rows each site writes its own, on groups an aggregate writes those of its argument,
whose sites stand on the aggregate of the column (`Site.below`). The column of a site follows from
the names behind the last site above it (`columnBelow`).
-/

namespace QuerySql

inductive Mark where
  | leaf (l : Leaf)
  | aggregate (function : Aggregate) (argument : Condition)

/-- A leaf condition or an aggregate where it stands. -/
structure Site where
  /-- The names of the objects around it, from the outside. -/
  keys : List String
  column : String
  mark : Mark

/-- The column that names lead to from a column. -/
def columnBelow (column : String) (keys : List String) : String :=
  keys.foldl (fun c k => lastPart c ++ "." ++ k) column

/-! ## Columns -/

/-- There is no point in the last part, and a point in front of it unless it is all there is. -/
theorem lastPart_spec (column : String) : '.' ∉ (lastPart column).toList
    ∧ (lastPart column = column
      ∨ ∃ front, column.toList = front ++ '.' :: (lastPart column).toList) := by
  have hlast : (lastPart column).toList
      = (column.toList.reverse.takeWhile (· != '.')).reverse := String.toList_ofList
  have hall : column.toList.reverse.takeWhile (· != '.')
      ++ column.toList.reverse.dropWhile (· != '.') = column.toList.reverse :=
    List.takeWhile_append_dropWhile
  constructor
  · intro h
    rw [hlast, List.mem_reverse] at h
    simpa using List.all_eq_true.1 List.all_takeWhile _ h
  · cases hd : column.toList.reverse.dropWhile (· != '.') with
    | nil =>
      rw [hd, List.append_nil] at hall
      refine .inl (String.toList_injective ?_)
      rw [hlast, hall, List.reverse_reverse]
    | cons c front =>
      have hc : c = '.' := by
        have := List.head?_dropWhile_not (· != '.') column.toList.reverse
        rw [hd] at this
        simpa using this
      refine .inr ⟨front.reverse, ?_⟩
      rw [← List.reverse_reverse column.toList, ← hall, hd, hc, hlast, List.reverse_append,
        List.reverse_cons, List.append_assoc, List.singleton_append]

theorem lastPart_append (front key : String) : lastPart (front ++ "." ++ key) = lastPart key := by
  have h : (front ++ "." ++ key).toList.reverse
      = key.toList.reverse ++ '.' :: front.toList.reverse := by simp
  unfold lastPart
  rw [h, List.takeWhile_append]
  split
  · rename_i hk
    rw [(List.takeWhile_prefix _).eq_of_length hk]
    simp
  · rfl

theorem columnBelow_append (column : String) (keys : List String) (key : String) :
    columnBelow column (keys ++ [key]) = lastPart (columnBelow column keys) ++ "." ++ key := by
  rw [columnBelow, List.foldl_append]
  rfl

/-- No name leads to a column that is not qualified. -/
theorem Scope.qualify_columnBelow (scope : Scope) {column : String}
    (h : scope.qualify column = column) (keys : List String) :
    scope.qualify (columnBelow column keys) = columnBelow column keys := by
  rcases List.eq_nil_or_concat keys with rfl | ⟨front, key, rfl⟩
  · exact h
  · rw [List.concat_eq_append, columnBelow_append, scope.qualify_member]

theorem columnBelow_append_append (column : String) (keys : List String) (key key' : String) :
    columnBelow column (keys ++ [key] ++ [key']) = lastPart key ++ "." ++ key' := by
  rw [columnBelow_append, columnBelow_append, lastPart_append]

namespace Condition

@[elab_as_elim, induction_eliminator]
theorem induction {P : Condition → Prop} (nothing : P nothing) (leaf : ∀ l, P (leaf l))
    (aggregate : ∀ f argument, P argument → P (aggregate f argument))
    (all : ∀ items, (∀ c ∈ items, P c) → P (all items))
    (any : ∀ items, (∀ c ∈ items, P c) → P (any items))
    (fields : ∀ entries : List (String × Condition), (∀ e ∈ entries, P e.2) → P (fields entries)) :
    ∀ c, P c
  | .nothing => nothing
  | .leaf l => leaf l
  | .aggregate f argument =>
    aggregate f argument (induction nothing leaf aggregate all any fields argument)
  | .all items => all items fun c _ => induction nothing leaf aggregate all any fields c
  | .any items => any items fun c _ => induction nothing leaf aggregate all any fields c
  | .fields entries => fields entries fun (name, c) he =>
    have : sizeOf (name, c) < sizeOf entries := List.sizeOf_lt_of_mem he
    induction nothing leaf aggregate all any fields c
termination_by c => sizeOf c
decreasing_by
  · decreasing_tactic
  · decreasing_tactic
  · decreasing_tactic
  · simp only [Prod.mk.sizeOf_spec, Condition.fields.sizeOf_spec] at *
    omega

mutual

/-- The sites of a condition that stands on a column, inside objects of the given names. -/
def sites (keys : List String) (column : String) : Condition → List Site
  | nothing => []
  | leaf l => [⟨keys, column, .leaf l⟩]
  | aggregate f argument => [⟨keys, column, .aggregate f argument⟩]
  | all items | any items => sitesOf keys column items
  | fields entries => fieldSites keys (lastPart column) entries

def sitesOf (keys : List String) (column : String) : List Condition → List Site
  | [] => []
  | c :: rest => sites keys column c ++ sitesOf keys column rest

def fieldSites (keys : List String) (table : String) : List (String × Condition) → List Site
  | [] => []
  | (name, c) :: rest =>
    sites (keys ++ [name]) (table ++ "." ++ name) c ++ fieldSites keys table rest

end

variable {keys : List String} {column : String}

theorem sitesOf_eq_flatMap (cs : List Condition) :
    sitesOf keys column cs = cs.flatMap (sites keys column) := by
  induction cs with
  | nil => rfl
  | cons c rest ih => rw [sitesOf, ih, List.flatMap_cons]

theorem fieldSites_eq_flatMap (table : String) (entries : List (String × Condition)) :
    fieldSites keys table entries
      = entries.flatMap fun e => e.2.sites (keys ++ [e.1]) (table ++ "." ++ e.1) := by
  induction entries with
  | nil => rfl
  | cons e rest ih => rw [fieldSites, ih, List.flatMap_cons]

/-- The names around a site lead to its column. -/
theorem column_of_mem_sites {c : Condition} {s : Site} (h : s ∈ c.sites keys column) :
    ∃ more, s.keys = keys ++ more ∧ s.column = columnBelow column more := by
  induction c generalizing keys column with
  | nothing => cases h
  | leaf l | aggregate f argument =>
    rw [List.mem_singleton.1 h]
    exact ⟨[], (List.append_nil keys).symm, rfl⟩
  | all items ih | any items ih =>
    rw [sites, sitesOf_eq_flatMap] at h
    obtain ⟨c, hc, hs⟩ := List.mem_flatMap.1 h
    exact ih c hc hs
  | fields entries ih =>
    rw [sites, fieldSites_eq_flatMap] at h
    obtain ⟨e, he, hs⟩ := List.mem_flatMap.1 h
    obtain ⟨more, hk, hc⟩ := ih e he hs
    refine ⟨e.1 :: more, ?_, hc⟩
    rw [hk, List.append_assoc, List.singleton_append]

end Condition

/-! ## What a site writes -/

namespace Site

def rowPieces (scope : Scope) (s : Site) : List String :=
  match s.mark with
  | .leaf l => [l.sql s.column]
  | .aggregate f _ => (scope.aggregateOfTable f s.column).pieces

/-- The sites of the argument, on the aggregate of the column; none at a leaf. -/
def below (s : Site) : List Site :=
  match s.mark with
  | .leaf _ => []
  | .aggregate f argument => argument.sites [] (f.apply s.column)

theorem qualify_of_mem_below (scope : Scope) {s t : Site} (h : t ∈ s.below) :
    scope.qualify t.column = t.column := by
  unfold below at h
  split at h
  · cases h
  · obtain ⟨more, -, hcolumn⟩ := Condition.column_of_mem_sites h
    rw [hcolumn]
    exact scope.qualify_columnBelow (scope.qualify_apply _ _) more

def pieces (scope : Scope) : Clause → Site → List String
  | .rows, s => s.rowPieces scope
  | .groups, s => s.below.flatMap (rowPieces scope)

end Site

namespace Condition

variable {scope : Scope} {clause : Clause} {keys : List String} {column : String}

theorem pieces_formula (c : Condition) : (c.formula scope clause column).pieces
    = (c.sites keys column).flatMap (Site.pieces scope clause) := by
  induction c generalizing clause keys column with
  | nothing => rfl
  | leaf l => cases clause <;> rfl
  | aggregate f argument ih =>
    rw [sites, List.flatMap_singleton]
    cases clause with
    | rows => rfl
    | groups => exact ih
  | all items ih | any items ih =>
    rw [formula, formulas_eq_map, sites, sitesOf_eq_flatMap, Formula.pieces, Formula.piecesOf_eq,
      List.flatMap_map, List.flatMap_assoc]
    exact List.flatMap_congr fun c hc => ih c hc
  | fields entries ih =>
    rw [formula, fieldFormulas_eq_map, sites, fieldSites_eq_flatMap, Formula.pieces,
      Formula.piecesOf_eq, List.flatMap_map, List.flatMap_assoc]
    exact List.flatMap_congr fun e he => ih e he

end Condition

namespace Filter

@[elab_as_elim, induction_eliminator]
theorem induction {P : Filter → Prop} (nothing : P nothing) (raw : ∀ sql, P (raw sql))
    (any : ∀ alternatives, (∀ f ∈ alternatives, P f) → P (any alternatives))
    (fields : ∀ entries, P (fields entries)) : ∀ f, P f
  | .nothing => nothing
  | .raw sql => raw sql
  | .any alternatives => any alternatives fun f _ => induction nothing raw any fields f
  | .fields entries => fields entries

mutual

def sites (scope : Scope) : Filter → List Site
  | nothing | raw _ => []
  | any alternatives => sitesOf scope alternatives
  | fields entries => entries.flatMap fun e => e.2.sites [e.1] (scope.qualify e.1)

def sitesOf (scope : Scope) : List Filter → List Site
  | [] => []
  | f :: rest => sites scope f ++ sitesOf scope rest

end

variable {scope : Scope}

theorem sitesOf_eq_flatMap (fs : List Filter) : sitesOf scope fs = fs.flatMap (sites scope) := by
  induction fs with
  | nil => rfl
  | cons f rest ih => rw [sitesOf, ih, List.flatMap_cons]

/-- Columns are qualified once, by the name at the root. -/
theorem qualify_of_mem_sites {f : Filter} {s : Site} (h : s ∈ f.sites scope) :
    scope.qualify s.column = s.column := by
  induction f with
  | nothing | raw => cases h
  | any alternatives ih =>
    rw [sites, sitesOf_eq_flatMap] at h
    obtain ⟨f, hf, hs⟩ := List.mem_flatMap.1 h
    exact ih f hf hs
  | fields entries =>
    obtain ⟨e, -, hs⟩ := List.mem_flatMap.1 h
    obtain ⟨more, -, hcolumn⟩ := Condition.column_of_mem_sites hs
    rw [hcolumn]
    exact scope.qualify_columnBelow (scope.qualify_qualify e.1) more

theorem pieces_formula_groups (f : Filter) : (f.formula scope .groups).pieces
    = (f.sites scope).flatMap (Site.pieces scope .groups) := by
  induction f with
  | nothing | raw => rfl
  | any alternatives ih =>
    rw [formula, formulas_eq_map, sites, sitesOf_eq_flatMap, Formula.pieces, Formula.piecesOf_eq,
      List.flatMap_map, List.flatMap_assoc]
    exact List.flatMap_congr fun f hf => ih f hf
  | fields entries =>
    rw [formula, sites, Formula.pieces, Formula.piecesOf_eq, List.flatMap_map, List.flatMap_assoc]
    exact List.flatMap_congr fun e _ => e.2.pieces_formula

end Filter

end QuerySql
