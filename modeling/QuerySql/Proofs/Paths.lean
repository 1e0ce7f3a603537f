import QuerySql.Statement.Join
import QuerySql.Statement.Projection

/-!
# Paths of names

A request goes through a schema by names: a step takes a name of a relation, and a path is what the
steps from the root have taken. `Place.Step` is a step to a relation that the request asks for, and
the relations that the joins reach are the places that such steps lead to (`mem_reached`).
-/

namespace QuerySql

/-! ## Steps and paths -/

/-- `Leads step a path b`: steps that take the names of `path` lead from `a` to `b`. -/
inductive Leads {σ : Type} (step : σ → String → σ → Prop) : σ → List String → σ → Prop where
  | here (a : σ) : Leads step a [] a
  | there {a b c : σ} {name : String} {path : List String} (first : step a name b)
      (further : Leads step b path c) : Leads step a (name :: path) c

namespace Leads

variable {σ τ : Type} {step : σ → String → σ → Prop} {a b c : σ} {path : List String}
  {name : String}

theorem eq_of_nil (h : Leads step a [] b) : a = b := by
  cases h with
  | here => rfl

theorem append {path' : List String} (h : Leads step a path b) (h' : Leads step b path' c) :
    Leads step a (path ++ path') c := by
  induction h with
  | here => exact h'
  | there first _ ih => exact .there first (ih h')

theorem concat (h : Leads step a path b) (last : step b name c) :
    Leads step a (path ++ [name]) c :=
  h.append (.there last (.here c))

theorem of_concat (h : Leads step a (path ++ [name]) c) :
    ∃ b, Leads step a path b ∧ step b name c := by
  induction path generalizing a with
  | nil =>
    cases h with
    | there first further => exact ⟨a, .here a, further.eq_of_nil ▸ first⟩
  | cons n path ih =>
    cases h with
    | there first further =>
      obtain ⟨b, hb, hlast⟩ := ih further
      exact ⟨b, .there first hb, hlast⟩

theorem map {step' : τ → String → τ → Prop} (view : σ → τ)
    (keeps : ∀ {a name b}, step a name b → step' (view a) name (view b))
    (h : Leads step a path b) : Leads step' (view a) path (view b) := by
  induction h with
  | here => exact .here _
  | there first _ ih => exact .there (keeps first) ih

/-- What every step keeps holds all along a path. -/
theorem induct {P : σ → Prop} (h : Leads step a path b) (ha : P a)
    (keeps : ∀ {a name b}, P a → step a name b → P b) : P b := by
  induction h with
  | here => exact ha
  | there first _ ih => exact ih (keeps ha first)

/-- Where every step keeps `P`, and takes a name to one place from where `P` holds, a path leads to
one place. -/
theorem eq_of_leads {P : σ → Prop} (h : Leads step a path b) (h' : Leads step a path c) (ha : P a)
    (keeps : ∀ {a name b}, P a → step a name b → P b)
    (once : ∀ {a name b b'}, P a → step a name b → step a name b' → b = b') : b = c := by
  induction h with
  | here => exact h'.eq_of_nil
  | there first _ ih =>
    cases h' with
    | there first' further' =>
      cases once ha first first'
      exact ih further' (keeps ha first)

end Leads

/-! ## Relations that are joined -/

/-- A schema with what a request asks of its relations. -/
structure Place where
  schema : Schema
  relations : SelectionTree

/-- A step to a relation that the schema has and the request asks for. -/
inductive Place.Step : Place → String → Place → Prop where
  | mk {s child : Schema} {relations : SelectionTree} {name : String} {asked : Selection}
      (mem : (name, asked) ∈ relations) (selected : asked.isSelected = true)
      (has : s.child? name = some child) : Step ⟨s, relations⟩ name ⟨child, asked.subtree⟩

namespace Schema

variable {s node : Schema} {relations : SelectionTree} {front path : List String}
  {p : List String × Schema}

theorem reached_cons (front : List String) (s : Schema) (name : String) (asked : Selection)
    (rest : SelectionTree) : s.reached front ((name, asked) :: rest)
      = (if asked.isSelected then
          (s.child? name).toList.flatMap fun child =>
            (front ++ [name], child) :: child.reached (front ++ [name]) asked.subtree
        else []) ++ s.reached front rest := by
  cases asked with
  | leaf on =>
    cases on <;> cases h : s.child? name <;>
      simp [reached, h, Asked.isSelected, Asked.subtree]
  | tree entries =>
    cases he : entries.isEmpty <;> cases h : s.child? name <;>
      simp [reached, h, he, Asked.isSelected, Asked.subtree]

theorem mem_reached_step : p ∈ s.reached front relations
    ↔ ∃ name asked child, (name, asked) ∈ relations ∧ asked.isSelected = true
        ∧ s.child? name = some child
        ∧ (p = (front ++ [name], child) ∨ p ∈ child.reached (front ++ [name]) asked.subtree) := by
  induction relations with
  | nil => simp [reached]
  | cons e rest ih =>
    obtain ⟨name, asked⟩ := e
    rw [reached_cons, List.mem_append, ih]
    constructor
    · rintro (h | ⟨name', asked', child, hm, h⟩)
      · split at h
        · rename_i hs
          obtain ⟨child, hc, h⟩ := List.mem_flatMap.1 h
          exact ⟨name, asked, child, List.mem_cons_self, hs, Option.mem_toList.1 hc,
            List.mem_cons.1 h⟩
        · cases h
      · exact ⟨name', asked', child, List.mem_cons_of_mem _ hm, h⟩
    · rintro ⟨name', asked', child, hm, hs, hc, h⟩
      rcases List.mem_cons.1 hm with he | hm
      · cases he
        rw [if_pos hs]
        exact .inl (List.mem_flatMap.2 ⟨child, Option.mem_toList.2 hc, List.mem_cons.2 h⟩)
      · exact .inr ⟨name', asked', child, hm, hs, hc, h⟩

theorem exists_leads_of_mem_reached {s : Schema} {relations : SelectionTree} {front : List String}
    (h : p ∈ s.reached front relations) : ∃ name path below, p.1 = front ++ name :: path
      ∧ Leads Place.Step ⟨s, relations⟩ (name :: path) ⟨p.2, below⟩ := by
  obtain ⟨name, asked, child, hm, hs, hc, rfl | h⟩ := mem_reached_step.1 h
  · exact ⟨name, [], asked.subtree, rfl, .there (.mk hm hs hc) (.here _)⟩
  · have := sizeOf_subtree_lt hm
    obtain ⟨name', path, below, hp, hl⟩ := exists_leads_of_mem_reached h
    refine ⟨name, name' :: path, below, ?_, .there (.mk hm hs hc) hl⟩
    rw [hp, List.append_assoc, List.singleton_append]
termination_by sizeOf relations

theorem mem_reached_of_leads {name : String} {below : SelectionTree} (front : List String)
    (h : Leads Place.Step ⟨s, relations⟩ (name :: path) ⟨node, below⟩) :
    (front ++ name :: path, node) ∈ s.reached front relations := by
  induction path generalizing name s relations front with
  | nil =>
    cases h with
    | there first further =>
      cases first with
      | mk mem selected has =>
        cases further
        exact mem_reached_step.2 ⟨_, _, _, mem, selected, has, .inl rfl⟩
  | cons name' path ih =>
    cases h with
    | there first further =>
      cases first with
      | mk mem selected has =>
        have hr := ih (front ++ [name]) further
        rw [List.append_assoc, List.singleton_append] at hr
        exact mem_reached_step.2 ⟨_, _, _, mem, selected, has, .inr hr⟩

/-- The joins reach what a path of one name or more leads to. -/
theorem mem_reached : (path, node) ∈ s.reached [] relations
    ↔ path ≠ [] ∧ ∃ below, Leads Place.Step ⟨s, relations⟩ path ⟨node, below⟩ := by
  constructor
  · intro h
    obtain ⟨name, rest, below, rfl, hl⟩ := exists_leads_of_mem_reached h
    exact ⟨List.cons_ne_nil _ _, below, hl⟩
  · rintro ⟨hp, below, h⟩
    obtain ⟨name, rest, rfl⟩ := List.exists_cons_of_ne_nil hp
    exact mem_reached_of_leads [] h

theorem joinLine_mem (h : (path, node) ∈ s.reached [] relations) :
    node.joinLine ∈ s.joinLines relations :=
  List.mem_map.2 ⟨_, h, rfl⟩

end Schema

end QuerySql
