import Mathlib
import QuerySql.Compiler
import QuerySql.Proofs.TreeLeaves

/-!
# What a count depends on

The number of rows that a request asks for does not depend on how they are shown. Where rows are
not grouped, it is counted from the relations and the filter alone; where they are, from these with
the groups and the selected columns, around a text with which the statement that returns the rows
begins (`Compiler.count_eq_and_find_extends`). The groups decide which of the two statements is
written (`Compiler.isGrouped_compile`).
-/

namespace QuerySql

/-! ## Items that group rows -/

theorem intercalate_eq_empty {separator : String} {items : List String}
    (h : ∀ item ∈ items, item ≠ "") : String.intercalate separator items = "" ↔ items = [] := by
  cases items with
  | nil => simp
  | cons first rest =>
    have hfirst : first ≠ "" := h first List.mem_cons_self
    cases rest with
    | nil => simpa using hfirst
    | cons second rest => simp [String.intercalate_cons_cons, hfirst]

theorem Schema.qualified_ne_empty (table column : String) : qualified table column ≠ "" := by
  simp [qualified]

theorem ne_empty_of_mem_groupItems {table item : String} {groups : SelectionTree}
    (h : item ∈ groupItems table groups) : item ≠ "" := by
  rw [groupItems, mem_distinct, AskedTree.items_eq] at h
  obtain ⟨leaf, -, hitem⟩ := List.mem_filterMap.1 h
  obtain ⟨-, hitem⟩ := Option.ite_none_right_eq_some.1 hitem
  cases hitem
  exact Schema.qualified_ne_empty _ leaf.name

/-! ## The two forms of a count -/

namespace Statement

variable {s t : Statement}

/-- What follows the condition on groups where the rows are returned. -/
def tail (orders limits : Option String) : String :=
  clause "ORDER BY\n\t" orders ++ "\n" ++ limits.getD "" ++ ";"

theorem find_eq_body_append (s : Statement) : s.find = s.body ++ tail s.orders s.limits := by
  simp only [find, tail, String.append_assoc]

theorem count_of_grouped (h : s.isGrouped = true) :
    s.count = "SELECT\nCOUNT(*) AS total\nFROM (\n\t" ++ s.body ++ ") grouped;" := if_pos h

theorem count_congr_of_ungrouped (hs : s.isGrouped = false) (ht : t.isGrouped = false)
    (table : s.table = t.table) (key : s.key = t.key) (joins : s.joins = t.joins)
    (filter : s.filter = t.filter) : s.count = t.count := by
  unfold count
  rw [hs, ht, table, key, joins, filter]
  rfl

theorem count_congr_of_grouped (hs : s.isGrouped = true) (ht : t.isGrouped = true)
    (body : s.body = t.body) : s.count = t.count := by
  rw [count_of_grouped hs, count_of_grouped ht, body]

end Statement

namespace Compiler

variable {s : Schema} {l l' : Settings} {r r' : Request}

/-- Rows are grouped where the groups name any column. -/
theorem isGrouped_compile (c : Compiler) (r : Request) :
    (c.compile r).isGrouped = true ↔ groupItems c.schema.table r.groups ≠ [] := by
  have hitems := @intercalate_eq_empty ", " _
    (@ne_empty_of_mem_groupItems c.schema.table · r.groups)
  rw [← not_iff_not, not_not, ← hitems, ← present_eq_none]
  show ¬ (Option.isSome _ = true) ↔ _
  rw [Option.not_isSome_iff_eq_none]
  rfl

theorem isGrouped_compile_eq_false {c : Compiler} {r : Request}
    (h : groupItems c.schema.table r.groups = []) : (c.compile r).isGrouped = false := by
  rw [← Bool.not_eq_true, isGrouped_compile, not_not]
  exact h

/-- The statement up to its condition on groups depends on neither the order nor the page. -/
theorem body_compile_congr (hr : r.relations = r'.relations) (hf : r.filter = r'.filter)
    (hg : r.groups = r'.groups) (hs : r.select = r'.select) :
    (compile ⟨s, l⟩ r).body = (compile ⟨s, l'⟩ r').body := by
  unfold Statement.body compile
  simp only [select, hr, hf, hg, hs]

/-- A count does not depend on how the rows are shown, nor on the settings: where rows are not
grouped it depends on the relations and the filter, and where they are also on the groups and the
selected columns. The text that it counts grouped rows of begins the statement that returns them,
and what follows there is their order and their page. -/
theorem count_eq_and_find_extends (s : Schema) :
    (∀ (l l' : Settings) (r r' : Request), r.relations = r'.relations → r.filter = r'.filter →
      (groupItems s.table r.groups = [] ∧ groupItems s.table r'.groups = []
        ∨ r.groups = r'.groups ∧ r.select = r'.select) →
      count ⟨s, l⟩ r = count ⟨s, l'⟩ r')
    ∧ ∀ (l : Settings) (r : Request), groupItems s.table r.groups ≠ [] →
      ∃ body, count ⟨s, l⟩ r = "SELECT\nCOUNT(*) AS total\nFROM (\n\t" ++ body ++ ") grouped;"
        ∧ find ⟨s, l⟩ r
          = body ++ Statement.tail (compile ⟨s, l⟩ r).orders (compile ⟨s, l⟩ r).limits := by
  constructor
  · intro l l' r r' hr hf h
    have ungrouped (h : groupItems s.table r.groups = []) (h' : groupItems s.table r'.groups = []) :
        count ⟨s, l⟩ r = count ⟨s, l'⟩ r' := by
      have hg : (compile ⟨s, l⟩ r).isGrouped = false := isGrouped_compile_eq_false h
      have hg' : (compile ⟨s, l'⟩ r').isGrouped = false := isGrouped_compile_eq_false h'
      refine Statement.count_congr_of_ungrouped hg hg' rfl rfl ?_ ?_
      · show present _ = present _
        rw [hr]
      · rw [filter_compile, filter_compile, hg, hg', hf]
    rcases h with ⟨h, h'⟩ | ⟨hg, hs⟩
    · exact ungrouped h h'
    · by_cases h : groupItems s.table r.groups = []
      · exact ungrouped h (hg ▸ h)
      · exact Statement.count_congr_of_grouped ((isGrouped_compile ⟨s, l⟩ r).2 h)
          ((isGrouped_compile ⟨s, l'⟩ r').2 (hg ▸ h)) (body_compile_congr hr hf hg hs)
  · intro l r h
    exact ⟨_, Statement.count_of_grouped ((isGrouped_compile ⟨s, l⟩ r).2 h),
      Statement.find_eq_body_append _⟩

/-- A page of logins in order is counted like all users, and groups of logins by the statement
that returns them. -/
theorem count_eq_and_find_extends_logins :
    let user := Schema.build "user" [.columns ["id", "login"]]
    let page : Request :=
      { select := [("login", .leaf true)], groups := [("login", .leaf false)]
        orders := [("login", .leaf "asc")], take := some 5, page := some 2 }
    let logins : Request := { groups := [("login", .leaf true)] }
    groupItems "user" page.groups = [] ∧ groupItems "user" logins.groups ≠ []
      ∧ count ⟨user, {}⟩ page = count ⟨user, ⟨50⟩⟩ {}
      ∧ count ⟨user, {}⟩ logins = count ⟨user, ⟨50⟩⟩ { logins with orders := page.orders }
      ∧ ∃ body, count ⟨user, {}⟩ logins
            = "SELECT\nCOUNT(*) AS total\nFROM (\n\t" ++ body ++ ") grouped;"
          ∧ find ⟨user, {}⟩ logins = body ++ Statement.tail none (some "LIMIT 0, 20") := by
  intro user page logins
  have hall : groupItems "user" [] = [] := by cbv
  have hpage : groupItems "user" page.groups = [] := by cbv
  have hlogins : groupItems "user" logins.groups ≠ [] := by
    have h : groupItems "user" logins.groups = ["user.login"] := by cbv
    rw [h]
    exact List.cons_ne_nil _ _
  have horders : (compile ⟨user, {}⟩ logins).orders = none := by cbv
  have hlimits : (compile ⟨user, {}⟩ logins).limits = some "LIMIT 0, 20" := by cbv
  obtain ⟨hcount, hfind⟩ := count_eq_and_find_extends user
  have hextends := hfind {} logins hlogins
  rw [horders, hlimits] at hextends
  refine ⟨hpage, hlogins, hcount _ _ _ _ rfl rfl (.inl ⟨hpage, hall⟩),
    hcount _ _ _ _ rfl rfl (.inr ⟨rfl, rfl⟩), hextends⟩

end Compiler

end QuerySql
