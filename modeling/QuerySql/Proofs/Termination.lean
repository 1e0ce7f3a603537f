import QuerySql.Filter.Basic
import QuerySql.Proofs.Calls

/-!
# Filters end

What an operator holds is read out of its text, and every string in it is shorter than that text
(`Json.Holds.length_lt`), so reading strings in turn comes to an end. `Expression.readWithin` and
`Condition.formulaWithin` go through an expression and a condition as they are written, without
looking at lengths, and give up when too many calls are nested. Neither gives up where as many calls
are allowed as the weight of what it starts from (`Condition.formula_ends`).
-/

namespace QuerySql

/-- Whether the string occurs in the value, at any depth, as a string or as a name. -/
inductive Json.Holds (t : String) : Json → Prop where
  | string : Holds t (.string t)
  | name {entries : List (String × Json)} {v : Json} (mem : (t, v) ∈ entries) :
      Holds t (.object entries)
  | item {items : List Json} {v : Json} (mem : v ∈ items) (holds : Holds t v) :
      Holds t (.array items)
  | member {entries : List (String × Json)} {name : String} {v : Json}
      (mem : (name, v) ∈ entries) (holds : Holds t v) : Holds t (.object entries)

theorem Json.Holds.length_lt {t : String} {v : Json} (h : v.Holds t) : t.length < v.weight := by
  induction h with
  | string => rw [weight]; omega
  | name mem => have := weight_entry_le_of_mem mem; rw [weight]; omega
  | item mem _ ih => have := weight_le_of_mem mem; rw [weight]; omega
  | member mem _ ih => have := weight_le_of_mem_entries mem; rw [weight]; omega

/-! ## Expressions -/

namespace Expression

/-- What a string in a filter means, if no more than `calls` calls are nested. -/
def readWithin (calls : Nat) (s : List Char) : Option Expression :=
  match calls with
  | 0 => none
  | calls + 1 =>
    match Shape.of (Text.trim s) with
    | .escaped rest => some (.escaped (String.ofList rest))
    | .plain => some (literalOf s)
    | .call name args =>
      let v := Argument.decode args
      if name = "$Not" then
        match innerCall? v with
        | none => some (.operator (.notEqual v))
        | some text =>
          (readWithin calls text).map fun inner =>
            .operator (((test? inner).map .not).getD (.notEqual v))
      else some (((Operator.ofCall? name v).map .operator).getD (literalOf s))

/-- No more calls are nested in a text than it has characters. -/
theorem readWithin_eq {calls : Nat} {s : List Char} (hpos : 0 < calls) (h : s.length ≤ calls) :
    readWithin calls s = some (read s) := by
  induction calls generalizing s with
  | zero => cases hpos
  | succ calls ih =>
    rw [readWithin]
    cases hs : Shape.of (Text.trim s) with
    | escaped rest => rw [read_escaped hs]
    | plain => rw [read_plain hs]
    | call name args =>
      rw [read_of_call hs]
      by_cases hn : name = "$Not"
      · simp only [if_pos hn, negated?]
        cases hi : innerCall? (Argument.decode args) with
        | none => rfl
        | some text =>
          have hargs := length_of_shape hs
          have htext := length_of_innerCall? hi
          have hweight := Argument.weight_decode_le args
          have htrim := Text.length_trim_le s
          have hinner : readWithin calls text = some (read text) := ih (by omega) (by omega)
          simp only [hinner, Option.map_some, Option.bind_some]
      · simp only [if_neg hn]

end Expression

/-! ## Conditions -/

namespace Condition

/-- The condition on a column that a value in a filter stands for, if no more than `calls` calls are
nested. Clauses and columns change on the way as the formula of a condition has them. -/
def formulaWithin (scope : Scope) (calls : Nat) (clause : Clause) (column : String) (v : Json) :
    Option Formula :=
  match calls with
  | 0 => none
  | calls + 1 =>
    let leaf (l : Leaf) : Option Formula := some (onRows (l.sql column) clause)
    match v with
    | .null => some .nothing
    | .bool b => leaf (.bare (Json.bool b).text)
    | .number n => leaf (.bare n.text)
    | .string s =>
      if isBlankText s then leaf .blank
      else
        (Expression.readWithin calls (Placeholder.strip s).toList).bind fun
          | .literal t | .escaped t => leaf (.literal t)
          | .operator (.test t) => leaf (.test t)
          | .operator (.not t) => leaf (.not t)
          | .operator (.notEqual w) => leaf (.notEqual w)
          | .operator (.between low high) => leaf (.between low high)
          | .operator (.anyOf items) => leaf (.anyOf items)
          | .operator (.allOf items) =>
            (items.mapM (formulaWithin scope calls clause column)).map .all
          | .operator (.aggregate f argument) =>
            match clause with
            | .rows => some (scope.aggregateOfTable f column)
            | .groups => formulaWithin scope calls .rows (f.apply column) argument
    | .array items => (items.mapM (formulaWithin scope calls clause column)).map .any
    | .object entries =>
      (entries.mapM fun e =>
        formulaWithin scope calls clause (lastPart column ++ "." ++ e.1) e.2).map .fields

variable {scope : Scope} {calls : Nat} {clause : Clause} {column : String} {v : Json}

theorem length_strip_le (s : String) : (Placeholder.strip s).length ≤ s.length := by
  have := Placeholder.length_stripAll_le s.toList
  rwa [String.length_toList, ← String.length_ofList] at this

theorem readWithin_strip {s : String} (hs : isBlankText s = false)
    (h : (Json.string s).weight ≤ calls + 1) :
    Expression.readWithin calls (Placeholder.strip s).toList = some (expressionOf s) := by
  have hstrip := length_strip_le s
  have hne : s ≠ "" := by
    rintro rfl
    cases hs
  have hpos : 0 < s.length := Nat.pos_of_ne_zero fun h => hne (String.length_eq_zero_iff.1 h)
  rw [Json.weight] at h
  exact Expression.readWithin_eq (by omega) (by rw [String.length_toList]; omega)

theorem formulaWithin_eq (h : v.weight ≤ calls) :
    formulaWithin scope calls clause column v = some ((ofJson v).formula scope clause column) := by
  induction calls generalizing clause column v with
  | zero => exact absurd h (Nat.not_le.2 v.weight_pos)
  | succ calls ih =>
    cases v with
    | null => rw [ofJson_null]; rfl
    | bool b => rw [ofJson_bool]; rfl
    | number n => rw [ofJson_number]; rfl
    | array items =>
      have hitems : items.mapM (formulaWithin scope calls clause column)
          = some (items.map fun w => (ofJson w).formula scope clause column) := by
        refine mapM_eq_pure_map fun w hw => ih ?_
        have := Json.weight_le_of_mem hw
        rw [Json.weight] at h
        omega
      rw [formula_array, formulaWithin]
      simp only [hitems, Option.map_some]
    | object entries =>
      have hentries : (entries.mapM fun e =>
          formulaWithin scope calls clause (lastPart column ++ "." ++ e.1) e.2)
          = some (entries.map fun e =>
            (ofJson e.2).formula scope clause (lastPart column ++ "." ++ e.1)) := by
        refine mapM_eq_pure_map fun e he => ih ?_
        have : e.2.weight ≤ _ := Json.weight_le_of_mem_entries he
        rw [Json.weight] at h
        omega
      rw [formula_object, formulaWithin]
      simp only [hentries, Option.map_some]
    | string s =>
      have hlighter {op : Operator} (he : expressionOf s = .operator op) {w : Json}
          (hw : w ∈ op.arguments) : w.weight ≤ calls := by
        have := weight_lt_of_expressionOf he hw
        omega
      rw [formulaWithin]
      cases hs : isBlankText s with
      | true => rw [ofJson_blank hs]; rfl
      | false =>
        have hread : Expression.readWithin calls (Placeholder.strip s).toList
            = some (expressionOf s) := readWithin_strip hs h
        simp only [hread]
        cases he : expressionOf s with
        | literal t => rw [ofJson_literal hs (.inl he)]; rfl
        | escaped t => rw [ofJson_literal hs (.inr he)]; rfl
        | operator op =>
          cases op with
          | allOf items =>
            rw [formula_allOf _ _ _ he]
            have hitems : items.mapM (formulaWithin scope calls clause column)
                = some (items.map fun w => (ofJson w).formula scope clause column) :=
              mapM_eq_pure_map fun w hw => ih (hlighter he hw)
            simp [hitems]
          | aggregate f argument =>
            rw [ofJson_operator he, ofOperator]
            cases clause with
            | rows => rw [formula]; rfl
            | groups =>
              rw [formula]
              exact ih (hlighter he (List.mem_singleton_self argument))
          | test t | not t | notEqual w | between low high | anyOf items =>
            rw [ofJson_operator he]
            rfl

/-- Reading and compiling end. Whatever string a text that is an operator has in its arguments is
shorter than the text, and no text is longer without its placeholders; so no more calls are nested
in a text than it has characters, and none more in a filter than the filter weighs. -/
theorem formula_ends (scope : Scope) :
    (∀ s op, Expression.ofString s = .operator op →
      ∀ v ∈ op.arguments, ∀ t, v.Holds t → t.length < s.length)
    ∧ (∀ s, (Placeholder.strip s).length ≤ s.length)
    ∧ (∀ s calls, s.length < calls → Expression.readWithin calls s = some (Expression.read s))
    ∧ ∀ v calls, v.weight ≤ calls → ∀ clause column,
        formulaWithin scope calls clause column v
          = some ((ofJson v).formula scope clause column) := by
  refine ⟨fun s op hread v hv t ht => ?_, length_strip_le, fun s calls h => ?_, ?_⟩
  · have := Expression.weight_le_of_read hread hv
    have := ht.length_lt
    rw [String.length_toList] at *
    omega
  · exact Expression.readWithin_eq (by omega) (by omega)
  · exact fun v calls h clause column => formulaWithin_eq h

/-- A maximum of a column that is unlike a text: what it is a maximum of is shorter, and 21 calls
are more than enough for either clause. -/
theorem formula_ends_max :
    let s := "$Max($Not($Like(a)))"
    let inner := "$Not($Like(a))"
    let scope : Scope := ⟨"user", true⟩
    Expression.ofString s = .operator (.aggregate .max (.string inner))
      ∧ (Json.string inner).Holds inner ∧ inner.length < s.length
      ∧ s.toList.length < 21
      ∧ Expression.readWithin 21 s.toList = some (Expression.read s.toList)
      ∧ (Json.string s).weight ≤ 21
      ∧ formulaWithin scope 21 .groups "user.login" (.string s)
        = some ((ofJson (.string s)).formula scope .groups "user.login") := by
  intro s inner scope
  have hshape : Expression.Shape.of (Text.trim s.toList) = .call "$Max" inner.toList := by cbv
  have hargument : Argument.decode inner.toList = .string inner := by cbv
  have hread : Expression.ofString s = .operator (.aggregate .max (.string inner)) := by
    rw [Expression.ofString, Expression.read_of_call hshape, hargument]
    rfl
  have hlength : s.toList.length < 21 := by decide
  have hweight : (Json.string s).weight ≤ 21 := by decide
  obtain ⟨hshorter, -, htext, hformula⟩ := formula_ends scope
  exact ⟨hread, .string, hshorter s _ hread _ (List.mem_singleton_self _) inner .string, hlength,
    htext _ _ hlength, hweight, hformula _ _ hweight .groups "user.login"⟩

end Condition

end QuerySql
