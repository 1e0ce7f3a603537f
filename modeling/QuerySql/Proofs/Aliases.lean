import Mathlib
import QuerySql.Statement.Projection

/-!
# Names in the result

A column is named in the result by its table and its own name with underscores between them. Two
columns may have one name there: underscores at the end of a table's name may as well stand at the
start of a column's, and what stands between may stand in the names too (`TableColumn.Clash`). No
other columns have (`TableColumn.resultName_eq_iff`), so the names of a projection are distinct
exactly where no two of its columns clash (`Schema.nodup_resultNames_iff`).
-/

namespace QuerySql

namespace TableColumn

def underscores (n : Nat) : String := String.ofList (List.replicate n '_')

/-- Two ways to read one name: the longer table's name goes on into the shorter one's column, by
underscores or beyond what stands between table and column. -/
inductive Clash (c d : TableColumn) : Prop where
  | underscores (n : Nat) (pos : 0 < n) (table : d.table = c.table ++ underscores n)
      (column : c.column = TableColumn.underscores n ++ d.column)
  | separator (mid : String) (table : d.table = c.table ++ aliasSeparator ++ mid)
      (column : c.column = mid ++ aliasSeparator ++ d.column)

variable {c d : TableColumn}

theorem toList_aliasSeparator : aliasSeparator.toList = List.replicate 5 '_' := rfl

theorem toList_underscores (n : Nat) : (underscores n).toList = List.replicate n '_' := by
  simp [underscores]

theorem toList_resultName (c : TableColumn) : c.resultName.toList
    = c.table.toList ++ (List.replicate 5 '_' ++ c.column.toList) := by
  rw [resultName, String.toList_append, String.toList_append, toList_aliasSeparator,
    List.append_assoc]

theorem replicate_append_comm (m n : Nat) :
    List.replicate m '_' ++ List.replicate n '_'
      = List.replicate n '_' ++ List.replicate m '_' := by
  rw [List.replicate_append_replicate, List.replicate_append_replicate, Nat.add_comm]

theorem Clash.resultName_eq (h : Clash c d) : c.resultName = d.resultName := by
  cases h with
  | underscores n _ table column =>
    rw [← String.toList_inj, toList_resultName, toList_resultName, table, column,
      String.toList_append, String.toList_append, toList_underscores, List.append_assoc,
      ← List.append_assoc (List.replicate 5 '_'), replicate_append_comm, List.append_assoc]
  | separator mid table column =>
    simp only [resultName, table, column, String.append_assoc]

theorem Clash.ne (h : Clash c d) : c ≠ d := by
  rintro rfl
  cases h with
  | underscores n pos table column =>
    have := congrArg (List.length ∘ String.toList) table
    simp [toList_underscores] at this
    omega
  | separator mid table column =>
    have := congrArg (List.length ∘ String.toList) table
    simp [toList_aliasSeparator] at this

theorem eq_or_clash_of_longer {m : List Char} (h : c.resultName = d.resultName)
    (ht : d.table.toList = c.table.toList ++ m) : c = d ∨ Clash c d := by
  have hm : List.replicate 5 '_' ++ c.column.toList
      = m ++ (List.replicate 5 '_' ++ d.column.toList) := by
    have := congrArg String.toList h
    rw [toList_resultName, toList_resultName, ht, List.append_assoc] at this
    exact List.append_cancel_left this
  rcases List.append_eq_append_iff.1 hm with ⟨mid, rfl, hc⟩ | ⟨rest, hrep, hd⟩
  · refine .inr (.separator (String.ofList mid) ?_ ?_) <;> rw [← String.toList_inj]
    · simp [ht, toList_aliasSeparator]
    · simp [hc, toList_aliasSeparator]
  · -- The longer table's name goes on with a part of the underscores, which the column has lost.
    obtain ⟨-, hu, hrest⟩ := List.append_eq_replicate_iff.1 hrep.symm
    have hswap : List.replicate 5 '_' = rest ++ m := by
      rw [hrep, hu, hrest, replicate_append_comm]
    have hc : c.column.toList = m ++ d.column.toList := by
      rw [hswap, List.append_assoc] at hd
      exact (List.append_cancel_left hd).symm
    by_cases h0 : m.length = 0
    · cases List.length_eq_zero_iff.1 h0
      left
      cases c
      cases d
      simp only [List.append_nil, List.nil_append, String.toList_inj] at ht hc
      rw [ht, hc]
    · refine .inr (.underscores m.length (Nat.pos_of_ne_zero h0) ?_ ?_) <;>
        rw [← String.toList_inj, String.toList_append, toList_underscores, ← hu]
      · exact ht
      · exact hc

/-- Two columns have one name in the result exactly where they are one or clash. -/
theorem resultName_eq_iff : c.resultName = d.resultName ↔ c = d ∨ Clash c d ∨ Clash d c := by
  constructor
  · intro h
    have hl := congrArg String.toList h
    rw [toList_resultName, toList_resultName] at hl
    rcases List.append_eq_append_iff.1 hl with ⟨m, ht, -⟩ | ⟨m, ht, -⟩
    · exact (eq_or_clash_of_longer h ht).imp_right .inl
    · exact (eq_or_clash_of_longer h.symm ht).imp .symm .inr
  · rintro (rfl | h | h)
    · rfl
    · exact h.resultName_eq
    · exact h.resultName_eq.symm

theorem nodup_map_resultName_iff {cs : List TableColumn} (h : cs.Nodup) :
    (cs.map resultName).Nodup ↔ ∀ c ∈ cs, ∀ d ∈ cs, ¬ Clash c d := by
  rw [List.nodup_map_iff_inj_on h]
  constructor
  · intro hinj c hc d hd hclash
    have he : c = d := hinj c hc d hd hclash.resultName_eq
    exact hclash.ne he
  · intro hno c hc d hd he
    rcases resultName_eq_iff.1 he with he | h | h
    · exact he
    · exact (hno c hc d hd h).elim
    · exact (hno d hd c hc h).elim

end TableColumn

namespace Schema

/-- The names of a projection's columns in the result are distinct exactly where no two of the
columns clash. -/
theorem nodup_resultNames_iff (s : Schema) (select relations : SelectionTree) :
    ((s.projection select relations).map TableColumn.resultName).Nodup
      ↔ ∀ c ∈ s.projection select relations, ∀ d ∈ s.projection select relations,
        ¬ TableColumn.Clash c d :=
  TableColumn.nodup_map_resultName_iff (nodup_distinct _)

/-- A table whose name ends in an underscore shares a name with a column that begins with one. -/
theorem nodup_resultNames_owner :
    let owner := build "user_" [.columns ["id"]]
    let user := build "user" [.columns ["_id"], .relation "owner" owner]
    ¬ ((user.projection [("_id", .leaf true), ("owner", .leaf true)]
        [("owner", .leaf true)]).map TableColumn.resultName).Nodup := by
  intro owner user
  have hprojection : user.projection [("_id", .leaf true), ("owner", .leaf true)]
      [("owner", .leaf true)] = [⟨"user", "_id"⟩, ⟨"user_", "id"⟩] := by cbv
  rw [hprojection]
  decide

end Schema

end QuerySql
