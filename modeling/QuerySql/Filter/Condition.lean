import QuerySql.Json.Writer
import QuerySql.Operator.Expression
import QuerySql.Operator.Placeholder

/-!
# Conditions

A condition is what a filter asks of one column, or, for an object, of the columns of one table.
`Condition.ofJson` reads it from the value in the filter. Strings are read as expressions after
their placeholders are taken out; the arguments of `$And` and of an aggregate are conditions in
turn, and weigh less than the string they stand in.
-/

namespace QuerySql

/-- A condition on one column that holds no further ones. -/
inductive Leaf where
  /-- The column is the empty text. -/
  | blank
  /-- The column is a number or a truth value, written without quotes. -/
  | bare (text : String)
  | literal (text : String)
  | test (t : Test)
  | not (t : Test)
  | notEqual (value : Json)
  | between (low high : Json)
  | anyOf (items : List Json)

/-- What a filter asks of a column. -/
inductive Condition where
  | nothing
  | leaf (l : Leaf)
  /-- A condition on an aggregate of the column. -/
  | aggregate (function : Aggregate) (argument : Condition)
  /-- All of several conditions on the column. -/
  | all (items : List Condition)
  /-- Any of several conditions on the column. -/
  | any (items : List Condition)
  /-- All of the conditions on columns of the table that the column names. -/
  | fields (entries : List (String × Condition))

namespace Condition

def isBlankText (s : String) : Bool := (Text.trim s.toList).isEmpty

/-- What a string in a filter means once its placeholders are taken out. -/
def expressionOf (s : String) : Expression := Expression.ofString (Placeholder.strip s)

theorem weight_lt_of_expressionOf {s : String} {op : Operator} {v : Json}
    (h : expressionOf s = .operator op) (hv : v ∈ op.arguments) :
    v.weight < (Json.string s).weight := by
  have h₁ := Expression.weight_le_of_read h hv
  have h₂ := Placeholder.length_stripAll_le s.toList
  simp only [Placeholder.strip, String.toList_ofList] at h₁
  rw [String.length_toList] at h₂
  rw [Json.weight]
  omega

/-- What a string that is not blank stands for: a text to compare with, or an operator whose
arguments weigh less than the string. -/
inductive Reading (s : String) where
  | text (t : String)
  | operator (op : Operator) (lighter : ∀ v ∈ op.arguments, v.weight < (Json.string s).weight)

def reading (s : String) : Reading s :=
  match h : expressionOf s with
  | .literal t | .escaped t => .text t
  | .operator op => .operator op fun _ hv => weight_lt_of_expressionOf h hv

/-- The condition that an operator stands for, where `read` reads its arguments. -/
def ofOperator (op : Operator) (read : (v : Json) → v ∈ op.arguments → Condition) : Condition :=
  match op with
  | .test t => .leaf (.test t)
  | .not t => .leaf (.not t)
  | .notEqual v => .leaf (.notEqual v)
  | .between low high => .leaf (.between low high)
  | .anyOf items => .leaf (.anyOf items)
  | .allOf items => .all (items.attach.map fun v => read v.1 v.2)
  | .aggregate f v => .aggregate f (read v (List.mem_singleton.2 rfl))

/-- The condition that a value stands for, where `read` says what a string stands for. -/
def ofJsonBy (read : (s : String) → Reading s) (v : Json) : Condition :=
  match v with
  | .null => .nothing
  | .bool b => .leaf (.bare (Json.bool b).text)
  | .number n => .leaf (.bare n.text)
  | .string s =>
    if isBlankText s then .leaf .blank
    else
      match read s with
      | .text t => .leaf (.literal t)
      | .operator op lighter =>
        ofOperator op fun w hw =>
          have := lighter w hw
          ofJsonBy read w
  | .array items => .any (items.map fun w => ofJsonBy read w)
  | .object entries => .fields (entries.map fun e => (e.1, ofJsonBy read e.2))
termination_by v.weight
decreasing_by
  · exact this
  · rename_i hw
    have := Json.weight_le_of_mem hw
    rw [Json.weight]
    omega
  · rename_i he
    have := Json.weight_le_of_mem_entries he
    rw [Json.weight]
    omega

def ofJson (v : Json) : Condition := ofJsonBy reading v

theorem ofJson_null : ofJson .null = .nothing := by
  rw [ofJson, ofJsonBy]

theorem ofJson_bool (b : Bool) : ofJson (.bool b) = .leaf (.bare (Json.bool b).text) := by
  rw [ofJson, ofJsonBy]

theorem ofJson_number (n : Number) : ofJson (.number n) = .leaf (.bare n.text) := by
  rw [ofJson, ofJsonBy]

theorem ofJson_array (items : List Json) :
    ofJson (.array items) = .any (items.map ofJson) := by
  rw [ofJson, ofJsonBy]
  rfl

theorem ofJson_object (entries : List (String × Json)) :
    ofJson (.object entries) = .fields (entries.map fun e => (e.1, ofJson e.2)) := by
  rw [ofJson, ofJsonBy]
  rfl

theorem expressionOf_of_isBlankText {s : String} (h : isBlankText s = true) :
    expressionOf s = .literal "" := by
  have ht : Text.trim s.toList = [] := List.isEmpty_iff.1 h
  have hd : '$' ∉ s.toList := fun hm => by
    have := Text.isBlank_of_trim ht _ hm
    revert this
    decide
  have hs : (Placeholder.strip s).toList = s.toList := by
    rw [Placeholder.strip, Placeholder.stripAll_eq_self hd, String.toList_ofList]
  rw [expressionOf, Expression.ofString, hs, Expression.read]
  split
  · rename_i he; rw [ht] at he; cases he
  · rw [Expression.literalOf, ht]
  · rename_i he; rw [ht] at he; cases he

theorem ofJson_operator {s : String} {op : Operator} (h : expressionOf s = .operator op) :
    ofJson (.string s) = ofOperator op fun w _ => ofJson w := by
  have hr : reading s = .operator op fun _ hv => weight_lt_of_expressionOf h hv := by
    unfold reading
    split
    · rename_i h'; rw [h] at h'; cases h'
    · rename_i h'; rw [h] at h'; cases h'
    · rename_i op' h'
      rw [h] at h'
      cases h'
      rfl
  have hs : ¬ isBlankText s = true := fun hb => by
    rw [expressionOf_of_isBlankText hb] at h
    cases h
  rw [ofJson, ofJsonBy, hr]
  simp only [hs]
  rfl

theorem ofJson_blank {s : String} (h : isBlankText s = true) :
    ofJson (.string s) = .leaf .blank := by
  rw [ofJson, ofJsonBy, if_pos h]

theorem ofJson_literal {s t : String} (hs : isBlankText s = false)
    (h : expressionOf s = .literal t ∨ expressionOf s = .escaped t) :
    ofJson (.string s) = .leaf (.literal t) := by
  have hr : reading s = .text t := by
    unfold reading
    split
    · rename_i h'
      rcases h with h | h <;> rw [h] at h' <;> cases h'
      rfl
    · rename_i h'
      rcases h with h | h <;> rw [h] at h' <;> cases h'
      rfl
    · rename_i h'
      rcases h with h | h <;> rw [h] at h' <;> cases h'
  rw [ofJson, ofJsonBy, hr]
  simp only [hs]
  rfl

theorem ofJson_text {s : String} (h : ∀ op, expressionOf s ≠ .operator op) :
    ofJson (.string s) = .leaf .blank ∨ ∃ t, ofJson (.string s) = .leaf (.literal t) := by
  cases hs : isBlankText s with
  | true => exact .inl (ofJson_blank hs)
  | false =>
    cases he : expressionOf s with
    | literal t => exact .inr ⟨t, ofJson_literal hs (.inl he)⟩
    | escaped t => exact .inr ⟨t, ofJson_literal hs (.inr he)⟩
    | operator op => exact (h op he).elim

theorem ofOperator_allOf (items : List Json) :
    (ofOperator (.allOf items) fun w _ => ofJson w) = .all (items.map ofJson) := by
  rw [ofOperator, List.attach_map_val (f := ofJson)]

/-- Induction over the value that a condition is read from; a string that is an operator is reached
from the arguments of the operator. -/
@[elab_as_elim]
theorem ofJson_induction {P : Json → Prop} (null : P .null) (bool : ∀ b, P (.bool b))
    (number : ∀ n, P (.number n))
    (string : ∀ s, (∀ op, expressionOf s = .operator op → ∀ v ∈ op.arguments, P v) →
      P (.string s))
    (array : ∀ items, (∀ v ∈ items, P v) → P (.array items))
    (object : ∀ entries : List (String × Json), (∀ e ∈ entries, P e.2) → P (.object entries))
    (v : Json) : P v :=
  match v with
  | .null => null
  | .bool b => bool b
  | .number n => number n
  | .string s => string s fun op h v hv =>
    have := weight_lt_of_expressionOf h hv
    ofJson_induction null bool number string array object v
  | .array items => array items fun v hv =>
    have := Json.weight_le_of_mem hv
    ofJson_induction null bool number string array object v
  | .object entries => object entries fun e he =>
    have : e.2.weight ≤ _ := Json.weight_le_of_mem_entries he
    ofJson_induction null bool number string array object e.2
termination_by v.weight
decreasing_by all_goals simp only [Json.weight] at *; omega

end Condition

end QuerySql
