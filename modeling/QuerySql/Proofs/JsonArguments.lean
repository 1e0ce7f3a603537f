import Mathlib
import QuerySql.Proofs.Calls

/-!
# Arguments that are JSON

The name of a call and the value of its argument say which operator it is (`Expression.Means`).
Where the argument is JSON, nothing else does: parentheses, quotes and commas inside its strings
come back as they are (`Expression.means_iff_read_callText`).
-/

namespace QuerySql

def Comparison.callName : Comparison → String
  | lessThan => "$LessThan"
  | lessThanOrEqual => "$LessThanOrEqual"
  | moreThan => "$MoreThan"
  | moreThanOrEqual => "$MoreThanOrEqual"

def Aggregate.callName : Aggregate → String
  | max => "$Max"
  | min => "$Min"
  | sum => "$Sum"
  | avg => "$Avg"
  | count => "$Count"
  | total => "$Total"

namespace Expression

inductive Lists : Json → List Json → Prop where
  | array (items : List Json) : Lists (.array items) items
  | empty : Lists (.string "") []
  | single (v : Json) (harray : ∀ items, v ≠ .array items) (hempty : v ≠ .string "") : Lists v [v]

/-- The operator that a name means with a value as its argument. -/
inductive Means : String → Json → Operator → Prop where
  | like (v : Json) : Means "$Like" v (.test (.like v))
  | iLike (v : Json) : Means "$ILike" v (.test (.iLike v))
  | compare (c : Comparison) (v : Json) : Means c.callName v (.test (.compare c v))
  | isNull (v : Json) : Means "$IsNull" v (.test .isNull)
  | aggregate (f : Aggregate) (v : Json) : Means f.callName v (.aggregate f v)
  | oneOf {v : Json} {items : List Json} (h : Lists v items) : Means "$In" v (.test (.oneOf items))
  | anyOf {v : Json} {items : List Json} (h : Lists v items) : Means "$Any" v (.anyOf items)
  | between (low high : Json) (rest : List Json) :
    Means "$Between" (.array (low :: high :: rest)) (.between low high)
  | allOfArray (items : List Json) : Means "$And" (.array items) (.allOf items)
  | allOfText (text : String) : Means "$And" (.string text) (.allOf (Items.split text.toList))
  | allOfSingle (v : Json) (harray : ∀ items, v ≠ .array items) (htext : ∀ text, v ≠ .string text) :
    Means "$And" v (.allOf [v])
  | not (text : String) {inner : Test} (h : read text.toList = .operator (.test inner)) :
    Means "$Not" (.string text) (.not inner)
  | notEqual (v : Json) (h : ∀ (text : String) (inner : Test), v = .string text →
      read text.toList ≠ .operator (.test inner)) : Means "$Not" v (.notEqual v)

variable {name : String} {v : Json} {op : Operator} {items : List Json} {args t : List Char}

theorem lists_iff : Lists v items ↔ Operator.itemsOf v = items := by
  constructor
  · intro h
    cases h with
    | array => rfl
    | empty => rfl
    | single _ harray hempty =>
      unfold Operator.itemsOf
      split
      · exact absurd rfl (harray _)
      · split
        · rename_i s he
          rw [String.isEmpty_iff.1 he] at hempty
          exact absurd rfl hempty
        · rfl
      · rfl
  · rintro rfl
    unfold Operator.itemsOf
    split
    · exact .array _
    · split
      · rename_i he
        rw [String.isEmpty_iff.1 he]
        exact .empty
      · rename_i s he
        exact .single _ (fun _ h => by cases h) (fun h => he (by cases h; rfl))
    · rename_i harray htext
      exact .single v (fun items h => harray items h) (fun h => htext "" h)

theorem means_iff_ofCall? (hn : name ≠ "$Not") :
    Means name v op ↔ Operator.ofCall? name v = some op := by
  constructor
  · intro h
    cases h with
    | like => rfl
    | iLike => rfl
    | compare c => cases c <;> rfl
    | isNull => rfl
    | aggregate f => cases f <;> rfl
    | oneOf h => rw [← lists_iff.1 h]; rfl
    | anyOf h => rw [← lists_iff.1 h]; rfl
    | between => rfl
    | allOfArray => rfl
    | allOfText => rfl
    | allOfSingle v harray htext =>
      show some (Operator.allOf (Operator.conditionsOf v)) = _
      unfold Operator.conditionsOf
      split
      · exact absurd rfl (harray _)
      · exact absurd rfl (htext _)
      · rfl
    | not => exact absurd rfl hn
    | notEqual => exact absurd rfl hn
  · intro h
    unfold Operator.ofCall? at h
    split at h
    case h_1 => cases h; exact .like v
    case h_2 => cases h; exact .iLike v
    case h_3 => cases h; exact .compare .lessThan v
    case h_4 => cases h; exact .compare .lessThanOrEqual v
    case h_5 => cases h; exact .compare .moreThan v
    case h_6 => cases h; exact .compare .moreThanOrEqual v
    case h_7 => cases h; exact .isNull v
    case h_8 => cases h; exact .oneOf (lists_iff.2 rfl)
    case h_9 => cases h; exact .anyOf (lists_iff.2 rfl)
    case h_10 =>
      cases h
      unfold Operator.conditionsOf
      split
      · exact .allOfArray _
      · exact .allOfText _
      · rename_i harray htext
        exact .allOfSingle v (fun items h => harray items h) (fun text h => htext text h)
    case h_11 =>
      split at h
      · cases h
        exact .between _ _ _
      · cases h
    case h_12 => cases h; exact .aggregate .max v
    case h_13 => cases h; exact .aggregate .min v
    case h_14 => cases h; exact .aggregate .sum v
    case h_15 => cases h; exact .aggregate .avg v
    case h_16 => cases h; exact .aggregate .count v
    case h_17 => cases h; exact .aggregate .total v
    case h_18 => cases h

theorem means_not_iff :
    Means "$Not" v op ↔ ((negated? v).map .not).getD (.notEqual v) = op := by
  constructor
  · intro h
    generalize hname : "$Not" = name at h
    cases h with
    | not text hr => rw [negated?_eq_some_iff.2 ⟨text, rfl, hr⟩]; rfl
    | notEqual v hne =>
      cases hv : negated? v with
      | none => rfl
      | some inner =>
        obtain ⟨text, htext, hr⟩ := negated?_eq_some_iff.1 hv
        exact absurd hr (hne text inner htext)
    | compare c => cases c <;> exact absurd hname (by decide)
    | aggregate f => cases f <;> exact absurd hname (by decide)
    | _ => exact absurd hname (by decide)
  · rintro rfl
    cases hv : negated? v with
    | none =>
      refine .notEqual v fun text inner htext hr => ?_
      rw [negated?_eq_some_iff.2 ⟨text, htext, hr⟩] at hv
      cases hv
    | some inner =>
      obtain ⟨text, rfl, hr⟩ := negated?_eq_some_iff.1 hv
      exact .not text hr

/-! ## What is read -/

theorem trim_callText (h : name ∈ Operator.names) (args : List Char) :
    Text.trim (callText name args) = callText name args := by
  obtain ⟨rest, hname⟩ := List.head?_eq_some_iff.1 (head?_of_mem_names h).1
  unfold callText
  rw [hname]
  exact Text.trim_eq_self (by decide) (by decide) (rest ++ '(' :: args)

/-- A call of an operator means what its name does with the value of the argument, or is a
literal. -/
theorem read_callText_eq (h : name ∈ Operator.names) (args : List Char) :
    (∀ op, read (callText name args) = .operator op ↔ Means name (Argument.decode args) op)
      ∧ ((∀ op, ¬ Means name (Argument.decode args) op) →
          read (callText name args) = literalOf (callText name args)) := by
  have hshape : Shape.of (Text.trim (callText name args)) = .call name args := by
    rw [trim_callText h]
    exact shape_of_mem_names h args
  have hr := read_of_call hshape
  by_cases hn : name = "$Not"
  · subst hn
    rw [if_pos rfl] at hr
    rw [hr]
    constructor
    · intro op
      rw [means_not_iff, Expression.operator.injEq]
    · intro hno
      exact absurd (means_not_iff.2 rfl) (hno _)
  · rw [if_neg hn] at hr
    rw [hr]
    cases ho : Operator.ofCall? name (Argument.decode args) with
    | some op =>
      constructor
      · intro op'
        rw [means_iff_ofCall? hn, ho, Option.map_some, Option.getD_some, Expression.operator.injEq,
          Option.some.injEq]
      · intro hno
        exact absurd ((means_iff_ofCall? hn).2 ho) (hno op)
    | none =>
      constructor
      · intro op
        rw [means_iff_ofCall? hn, ho]
        constructor
        · intro h
          cases h
        · intro h
          cases h
      · intro _
        rfl

theorem mem_names_of_means (h : Means name v op) : name ∈ Operator.names := by
  cases h with
  | compare c => cases c <;> decide
  | aggregate f => cases f <;> decide
  | _ => decide

/-- `$Not` in front of a test is the test's own negation, since no test is read as JSON. -/
theorem read_not {inner : Test} (ht : Text.trim t = t) (hr : read t = .operator (.test inner)) :
    read (callText "$Not" t) = .operator (.not inner) := by
  obtain ⟨name, args, hcall, hf⟩ := exists_operator_iff.1 ⟨_, hr⟩
  obtain ⟨rest, hname⟩ := List.head?_eq_some_iff.1 (head?_of_mem_names hf.known).1
  have hhead : t = '$' :: (rest ++ '(' :: args ++ [')']) := by
    rw [← ht, hcall, callText, hname]
    rfl
  have harg : Argument.decode t = .string (String.ofList t) := by
    rw [hhead]
    refine Argument.decode_of_plain (by decide) (by decide) (by decide) ?_
    rw [← hhead, ht]
  refine ((read_callText_eq (by decide) t).1 (.not inner)).2 ?_
  rw [harg]
  refine .not (String.ofList t) ?_
  rw [String.toList_ofList]
  exact hr

/-- An argument that is JSON is the argument of the operator, whatever characters write it, and the
call is a literal where `$Between` has no two bounds. A test behind `$Not` is negated. -/
theorem means_iff_read_callText :
    (∀ (args : List Char) (v : Json), Json.read args = .ok v →
      (∀ name op, Means name v op
        ↔ name ∈ Operator.names ∧ read (callText name args) = .operator op)
      ∧ ((∀ low high rest, v ≠ .array (low :: high :: rest)) →
          read (callText "$Between" args) = .literal (String.ofList (callText "$Between" args))))
    ∧ ∀ (t : List Char) (inner : Test), Text.trim t = t → read t = .operator (.test inner) →
      read (callText "$Not" t) = .operator (.not inner) := by
  refine ⟨fun args v hv => ?_, fun t inner => read_not⟩
  have harg := Argument.decode_of_read hv
  constructor
  · intro name op
    constructor
    · intro hm
      have hname := mem_names_of_means hm
      exact ⟨hname, ((read_callText_eq hname args).1 op).2 (harg.symm ▸ hm)⟩
    · rintro ⟨hname, hr⟩
      exact harg ▸ ((read_callText_eq hname args).1 op).1 hr
  · intro hb
    have hno : ∀ op, ¬ Means "$Between" (Argument.decode args) op := by
      intro op hm
      rw [harg] at hm
      have hf := Operator.Fits.of_ofCall? ((means_iff_ofCall? (by decide)).1 hm)
      obtain ⟨low, high, rest, rfl⟩ := hf.bounds rfl
      exact hb low high rest rfl
    rw [(read_callText_eq (by decide) args).2 hno, literalOf, trim_callText (by decide)]

/-- A string with parentheses, quotes and a comma in it. -/
theorem means_iff_read_callText_string :
    let args := "\"b),'(\\\"$In(1,2)\"".toList
    let v := Json.string "b),'(\"$In(1,2)"
    Json.read args = .ok v
      ∧ read (callText "$Like" args) = .operator (.test (.like v))
      ∧ read (callText "$In" args) = .operator (.test (.oneOf [v]))
      ∧ read (callText "$Between" args) = .literal (String.ofList (callText "$Between" args))
      ∧ read (callText "$Not" (callText "$Like" args)) = .operator (.not (.like v)) := by
  intro args v
  have hv : Json.read args = .ok v := by
    have hscan : Inside.scan "b),'(\\\"$In(1,2)\"".toList
        = ⟨"b),'(\"$In(1,2)".toList, none, .ok []⟩ := by
      cbv
    exact Json.read_string hscan
  obtain ⟨hmeans, hbetween⟩ := means_iff_read_callText.1 args v hv
  have hlike : read (callText "$Like" args) = .operator (.test (.like v)) :=
    ((hmeans _ _).1 (.like v)).2
  have hlists : Lists v [v] := by
    refine .single v (fun items => Json.noConfusion) fun h => ?_
    exact absurd (Json.string.inj h) (by decide)
  exact ⟨hv, hlike, ((hmeans _ _).1 (.oneOf hlists)).2, hbetween fun _ _ _ => Json.noConfusion,
    means_iff_read_callText.2 _ _ (trim_callText (by decide) args) hlike⟩

end Expression

end QuerySql
