import Mathlib
import QuerySql.Proofs.Precedence
import QuerySql.Proofs.Sites

/-!
# The columns of conditions on groups

The condition on groups is written by the arguments of aggregates alone. A leaf of such an argument
stands on the aggregate of the column as long as no object is around it
(`Filter.columns_of_groups`). An object takes the part behind the last point for the name of a table
and so cuts the text of the aggregate in two: `MAX(order.price)` becomes `price).a`.
-/

namespace QuerySql

theorem Aggregate.exists_open (f : Aggregate) (column : String) :
    ∃ front rest, (f.apply column).toList = front ++ '(' :: rest ∧ '.' ∉ front := by
  cases f with
  | max => exact ⟨"MAX".toList, column.toList ++ [')'], by simp [apply], by decide⟩
  | min => exact ⟨"MIN".toList, column.toList ++ [')'], by simp [apply], by decide⟩
  | sum => exact ⟨"SUM".toList, column.toList ++ [')'], by simp [apply], by decide⟩
  | avg => exact ⟨"AVG".toList, column.toList ++ [')'], by simp [apply], by decide⟩
  | count => exact ⟨"COUNT".toList, column.toList ++ [')'], by simp [apply], by decide⟩
  | total => exact ⟨"COUNT".toList, ['*', ')'], by simp [apply], by decide⟩

theorem mem_front_of_split {front rest q l : List Char}
    (h : front ++ '(' :: rest = q ++ '.' :: l) (hp : '.' ∉ front) : '(' ∈ q := by
  rcases List.append_eq_append_iff.1 h with ⟨m, hq, hm⟩ | ⟨m, hf, hm⟩
  · cases m with
    | nil => cases hm
    | cons c m =>
      obtain ⟨rfl, -⟩ := List.cons.inj hm
      rw [hq]
      exact List.mem_append_right _ List.mem_cons_self
  · cases m with
    | nil => cases hm
    | cons c m =>
      obtain ⟨rfl, -⟩ := List.cons.inj hm
      exact absurd (hf ▸ List.mem_append_right _ List.mem_cons_self) hp

theorem lastPart_apply_append_ne (f : Aggregate) (column : String) {key : String}
    (hk : '(' ∉ key.toList) : lastPart (f.apply column) ++ "." ++ key ≠ f.apply column := by
  intro h
  have hl : (f.apply column).toList
      = (lastPart (f.apply column)).toList ++ '.' :: key.toList := by
    have := congrArg String.toList h.symm
    simpa using this
  obtain ⟨-, hall | ⟨q, hq⟩⟩ := lastPart_spec (f.apply column)
  · have := congrArg List.length hl
    rw [hall] at this
    simp at this
  · obtain ⟨front, rest, ho, hp⟩ := f.exists_open column
    have hmem : '(' ∈ q := mem_front_of_split (ho.symm.trans hq) hp
    -- the parentheses of the aggregate are those of its last part, and there is one before
    have h₁ := congrArg (List.count '(') hl
    have h₂ := congrArg (List.count '(') hq
    have h₃ : 0 < q.count '(' := List.count_pos_iff.2 hmem
    have h₄ : key.toList.count '(' = 0 := List.count_eq_zero.2 hk
    simp only [List.count_append, List.count_cons] at h₁ h₂
    simp at h₁ h₂
    omega

theorem lastPart_no_open {key : String} (hk : '(' ∉ key.toList) :
    '(' ∉ (lastPart key).toList := by
  obtain ⟨-, hall | ⟨q, hq⟩⟩ := lastPart_spec key
  · rwa [hall]
  · intro hm
    rw [hq] at hk
    exact hk (List.mem_append_right _ (List.mem_cons_of_mem _ hm))

/-- Names without parentheses do not lead back to the aggregate. -/
theorem columnBelow_apply_ne (f : Aggregate) (column : String) {keys : List String}
    (hne : keys ≠ []) (hk : ∀ k ∈ keys, '(' ∉ k.toList) :
    columnBelow (f.apply column) keys ≠ f.apply column := by
  obtain ⟨init, key, rfl⟩ := (List.eq_nil_or_concat' keys).resolve_left hne
  have hkey : '(' ∉ key.toList := hk key (by simp)
  rcases List.eq_nil_or_concat' init with rfl | ⟨init', key', rfl⟩
  · exact lastPart_apply_append_ne f column hkey
  · rw [columnBelow_append_append]
    intro h
    obtain ⟨front, rest, ho, -⟩ := f.exists_open column
    have hm : '(' ∈ (f.apply column).toList := by rw [ho]; simp
    rw [← h] at hm
    simp [lastPart_no_open (hk key' (by simp)), hkey] at hm

namespace Filter

/-- The leaves of an argument stand on the aggregate itself exactly where no object is around
them, names with a parenthesis apart. To qualify a column once more changes nothing. -/
theorem columns_of_groups (scope : Scope) (v : Json) :
    let f := (ofJson v).formula scope .groups
    let sites := (ofJson v).sites scope
    -- the text is written by the sites below aggregates
    f.reading.elim "" Chain.text = (ofJson v).sql scope .groups
      ∧ f.written.Sublist (sites.flatMap fun s => s.below.flatMap (Site.rowPieces scope))
      ∧ (∀ s ∈ sites, scope.qualify s.column = s.column
          ∧ ∀ t ∈ s.below, scope.qualify t.column = t.column)
      ∧ ∀ s ∈ sites, ∀ function argument, s.mark = .aggregate function argument →
          ∀ t ∈ s.below, (∀ k ∈ t.keys, '(' ∉ k.toList) →
            (t.column = function.apply s.column ↔ t.keys = []) := by
  intro f sites
  have hp : f.pieces = sites.flatMap fun s => s.below.flatMap (Site.rowPieces scope) :=
    pieces_formula_groups (ofJson v)
  have hqualified : ∀ s ∈ sites, scope.qualify s.column = s.column
      ∧ ∀ t ∈ s.below, scope.qualify t.column = t.column := fun s hs =>
    ⟨qualify_of_mem_sites hs, fun t ht => Site.qualify_of_mem_below scope ht⟩
  refine ⟨f.text_reading, hp ▸ f.written_sublist, hqualified,
    fun s _ function argument hm t ht hk => ?_⟩
  rw [Site.below, hm] at ht
  obtain ⟨more, hkeys, hc⟩ := Condition.column_of_mem_sites ht
  rw [List.nil_append] at hkeys
  rw [hkeys] at hk ⊢
  rw [hc]
  constructor
  · intro h
    by_contra hne
    exact columnBelow_apply_ne function s.column hne hk h
  · rintro rfl
    rfl

/-- A number in the argument is compared with the aggregate. -/
theorem columns_of_groups_number :
    let v := Json.object [("price", .string "$Max(7)")]
    ∃ s ∈ (ofJson v).sites ⟨"order", true⟩, ∃ t ∈ s.below,
      (∀ k ∈ t.keys, '(' ∉ k.toList) ∧ t.column = "MAX(order.price)" := by
  intro v
  have he : Condition.expressionOf "$Max(7)" = .operator (.aggregate .max (.number (.int 7))) := by
    cbv
  have hs : (ofJson v).sites ⟨"order", true⟩
      = [⟨["price"], "order.price", .aggregate .max (.leaf (.bare "7"))⟩] := by
    have hc : Condition.ofJson (.string "$Max(7)") = .aggregate .max (.leaf (.bare "7")) := by
      rw [Condition.ofJson_operator he, Condition.ofOperator, Condition.ofJson_number]
      rfl
    rw [ofJson, ofJsonWithin, sites, List.map_cons, hc]
    rfl
  obtain ⟨-, -, -, hcol⟩ := columns_of_groups ⟨"order", true⟩ v
  rw [hs] at hcol ⊢
  refine ⟨_, List.mem_singleton_self _, _, List.mem_singleton_self _,
    List.forall_mem_nil _, ?_⟩
  exact (hcol _ (List.mem_singleton_self _) .max _ rfl _ (List.mem_singleton_self _)
    (List.forall_mem_nil _)).2 rfl

/-- An object in the argument cuts the aggregate off its column. -/
theorem columns_of_groups_object :
    let v := Json.object [("order.price", .string "$Max(\x7b\"a\":1\x7d)")]
    (ofJson v).sql ⟨"user", true⟩ .groups = "(price).a = 1)" := by
  intro v
  have hname : Inside.scan ['a', '"', ':', '1', '\x7d']
      = ⟨['a'], none, .ok [':', '1', '\x7d']⟩ := by cbv
  have hrest : (Document.scanMemberValue 1 [':', '1', '\x7d']).rest = some ['\x7d'] := by cbv
  have hone : (Document.scanMemberValue 1 [':', '1', '\x7d']).piece.read
      = .ok (.number (.int 1)) := by cbv
  have harg : Json.read ['\x7b', '"', 'a', '"', ':', '1', '\x7d']
      = .ok (.object [("a", .number (.int 1))]) :=
    Json.read_object_single rfl rfl hname hrest hone rfl
  have hcall : Expression.Shape.of (Text.trim
      (Placeholder.strip "$Max(\x7b\"a\":1\x7d)").toList)
        = .call "$Max" ['\x7b', '"', 'a', '"', ':', '1', '\x7d'] := by cbv
  have he : Condition.expressionOf "$Max(\x7b\"a\":1\x7d)"
      = .operator (.aggregate .max (.object [("a", .number (.int 1))])) := by
    refine Expression.read_call hcall (by decide) ?_
    rw [Argument.decode_of_read harg]
    rfl
  have hc : Condition.ofJson (.string "$Max(\x7b\"a\":1\x7d)")
      = .aggregate .max (.fields [("a", .leaf (.bare "1"))]) := by
    rw [Condition.ofJson_operator he, Condition.ofOperator, Condition.ofJson_object,
      List.map_cons, Condition.ofJson_number]
    rfl
  show ((ofJsonWithin false v).formula _ _).sql = _
  rw [ofJsonWithin, List.map_cons, hc]
  decide +kernel

end Filter

end QuerySql
