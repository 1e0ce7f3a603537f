import QuerySql.Filter.Basic
import QuerySql.Proofs.Reading

/-!
# Precedence in the text of a filter

`Filter.value_reading`: the text of a filter is a chain of its leaf conditions, and reading it with
the precedence of SQL gives the value of the filter as long as no conjunction of two or more parts
has a part through which alternatives come up (`Formula.Guarded`): an object, a list or an `$And`
whose one part that says something is a list of two or more alternatives. Such a part loses its
parentheses. Where the leaf conditions are distinct this is the only way in which they can be
read differently, and then the text accepts more than the filter does.
-/

namespace QuerySql

namespace Formula

/-- The text of the formula as a chain; none where it is empty. -/
def reading (f : Formula) : Option Chain := f.outline.map Outline.chain

/-- The pieces in the text of the formula, from left to right. -/
def written (f : Formula) : List String := f.reading.elim [] Chain.pieces

/-- No conjunction of two or more parts has a part through which alternatives come up. -/
def Guarded (f : Formula) : Prop := ∀ t, f.outline = some t → t.Guarded

/-- In the text, no part of a conjunction of two or more is a list of alternatives without
parentheses. -/
def Parenthesized (f : Formula) : Prop := ∀ t, f.outline = some t → t.Parenthesized

variable {ν : String → Bool} {f : Formula}

theorem text_reading (f : Formula) : f.reading.elim "" Chain.text = f.sql := by
  rw [sql_eq, reading]
  cases f.outline <;> rfl

theorem written_sublist (f : Formula) : f.written.Sublist f.pieces := by
  unfold written reading
  cases h : f.outline with
  | none => exact List.nil_sublist _
  | some t =>
    show t.chain.pieces.Sublist f.pieces
    rw [Outline.pieces_chain]
    exact pieces_outline_sublist h

theorem parenthesized_iff_guarded : f.Parenthesized ↔ f.Guarded :=
  forall₂_congr fun _ _ => Outline.parenthesized_iff_guarded

theorem Guarded.map_reading (h : f.Guarded) (hc : f.Consistent ν) :
    f.reading.map (Chain.value ν) = f.value ν := by
  rw [hc.value_eq, reading, Option.map_map]
  cases ho : f.outline with
  | none => rfl
  | some t => exact congrArg some (Outline.parenthesized_iff_guarded.2 (h t ho)).value_chain

theorem value_reading_of_value (h : f.value ν = some true) :
    f.reading.map (Chain.value ν) = some true := by
  obtain ⟨t, ht⟩ := Option.ne_none_iff_exists'.1 fun e =>
    Option.some_ne_none true (h.symm.trans (value_eq_none_iff.2 e))
  rw [reading, ht]
  exact congrArg some (Outline.value_chain_of_value (value_outline_of_value ht h))

/-- Distinct pieces tell a missing parenthesis. -/
theorem guarded_of_value_reading (hn : f.written.Nodup)
    (h : ∀ ν, f.reading.map (Chain.value ν) = f.value ν) : f.Guarded := by
  intro t ht
  rw [written, reading, ht] at hn
  have hp : t.pieces.Nodup := Outline.pieces_chain t ▸ hn
  by_contra hg
  obtain ⟨ν, hc, hv⟩ := Outline.exists_widened (mt Outline.parenthesized_iff_guarded.1 hg) hp
  have hr := h ν
  rw [reading, ht, Option.map_some, Option.map_some, hc] at hr
  rw [value_outline_of_value ht hr.symm] at hv
  cases hv

end Formula

namespace Filter

/-- The text of a filter read with precedence against the filter itself. -/
theorem value_reading (scope : Scope) (clause : Clause) (v : Json) :
    let f := (ofJson v).formula scope clause
    -- the chain is the text, and what stands in it are leaf conditions of the filter
    f.reading.elim "" Chain.text = (ofJson v).sql scope clause ∧ f.written.Sublist f.pieces
      ∧ (f.Parenthesized ↔ f.Guarded)
      ∧ (f.Guarded → ∀ ν, f.Consistent ν → f.reading.map (Chain.value ν) = f.value ν)
      ∧ (f.written.Nodup → (∀ ν, f.reading.map (Chain.value ν) = f.value ν) → f.Guarded)
      ∧ ∀ ν, f.value ν = some true → f.reading.map (Chain.value ν) = some true :=
  ⟨Formula.text_reading _, Formula.written_sublist _, Formula.parenthesized_iff_guarded,
    fun hg _ hc => hg.map_reading hc, Formula.guarded_of_value_reading,
    fun _ => Formula.value_reading_of_value⟩

/-- A list of alternatives next to another condition is read as it is meant. -/
theorem value_reading_guarded :
    let v := Json.object [("name", .array [.number (.int 1), .number (.int 2)]),
      ("id", .number (.int 3))]
    let f := (ofJson v).formula ⟨"user", false⟩ .rows
    f.Guarded ∧ f.written.Nodup
      ∧ ∀ ν, f.Consistent ν ∧ f.reading.map (Chain.value ν) = f.value ν := by
  intro v f
  have hf : (ofJson v).formula ⟨"user", false⟩ .rows
      = .all [.any [.leaf "(user.name = 1)", .leaf "(user.name = 2)"],
          .leaf "(user.id = 3)"] := by
    rw [ofJson, ofJsonWithin]
    simp only [List.map, Condition.ofJson_array, Condition.ofJson_number]
    rfl
  have hg : f.Guarded := by
    intro t ht
    change ((ofJson v).formula ⟨"user", false⟩ .rows).outline = some t at ht
    rw [hf] at ht
    cases ht
    refine .all ?_ (by decide)
    rintro t (_ | ⟨_, _ | ⟨_, ⟨⟩⟩⟩)
    · refine .any ?_
      rintro t (_ | ⟨_, _ | ⟨_, ⟨⟩⟩⟩) <;> exact .piece _
    · exact .piece _
  have hc : ∀ ν, f.Consistent ν := by
    intro ν
    change ((ofJson v).formula ⟨"user", false⟩ .rows).Consistent ν
    rw [hf]
    refine .all ?_
    rintro g (_ | ⟨_, _ | ⟨_, ⟨⟩⟩⟩)
    · refine .any ?_
      rintro g (_ | ⟨_, _ | ⟨_, ⟨⟩⟩⟩) <;> exact .leaf _
    · exact .leaf _
  have hn : f.written.Nodup := by
    change ((ofJson v).formula ⟨"user", false⟩ .rows).written.Nodup
    rw [hf]
    decide
  obtain ⟨-, -, -, hval, -⟩ := value_reading ⟨"user", false⟩ .rows v
  exact ⟨hg, hn, fun ν => ⟨hc ν, hval hg ν (hc ν)⟩⟩

/-- Under a relation with one condition, alternatives stand next to `AND` without parentheses. -/
theorem value_reading_unguarded :
    let v := Json.object [("role", .object [("name", .array [.number (.int 1), .number (.int 2)])]),
      ("login", .number (.int 3))]
    let f := (ofJson v).formula ⟨"user", false⟩ .rows
    (ofJson v).sql ⟨"user", false⟩ .rows = "(role.name = 1) OR (role.name = 2) AND (user.login = 3)"
      ∧ ∃ ν, f.value ν = some false ∧ f.reading.map (Chain.value ν) = some true := by
  intro v f
  have hf : (ofJson v).formula ⟨"user", false⟩ .rows
      = .all [.fields [.any [.leaf "(role.name = 1)", .leaf "(role.name = 2)"]],
          .leaf "(user.login = 3)"] := by
    rw [ofJson, ofJsonWithin]
    simp only [List.map, Condition.ofJson_object, Condition.ofJson_array, Condition.ofJson_number]
    rfl
  refine ⟨?_, fun s => s == "(role.name = 1)", ?_, ?_⟩
  · show ((ofJson v).formula ⟨"user", false⟩ .rows).sql = _
    rw [hf]
    decide
  · show ((ofJson v).formula ⟨"user", false⟩ .rows).value _ = some false
    rw [hf]
    decide
  · show ((ofJson v).formula ⟨"user", false⟩ .rows).reading.map _ = some true
    rw [hf]
    decide

end Filter

end QuerySql
