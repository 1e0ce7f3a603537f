import Mathlib
import QuerySql.Filter.Basic
import QuerySql.Proofs.Calls

/-!
# Escaped texts

A backslash in front of a text comes before every operator. It is in nobody's way until it is read:
placeholders are taken out behind it as they would be without it (`Placeholder.stripAll_cons`), only
the blanks at the end of the text are trimmed (`Text.trim_cons`), and the text that is left is
compared with as it is, wherever a condition on a column may stand (`Condition.predicate_escaped`).
-/

namespace QuerySql

/-! ## In front of a text -/

namespace Placeholder

variable {c : Char} {s : List Char}

theorem breakAtOpening?_cons (hopen : c ≠ '$') (s : List Char) :
    breakAtOpening? (c :: s)
      = (breakAtOpening? s).map fun (before, after) => (c :: before, after) := by
  rw [breakAtOpening?]
  rintro rest rfl
  exact absurd rfl hopen

theorem stripFirst?_cons (hopen : c ≠ '$') (hclose : c ≠ '\x7d') (s : List Char) :
    stripFirst? (c :: s) = (stripFirst? s).map (c :: ·) := by
  have hinside : isInside c = true := bne_iff_ne.2 hclose
  unfold stripFirst?
  rw [breakAtOpening?_cons hopen]
  cases breakAtOpening? s with
  | none => rfl
  | some cut =>
    obtain ⟨before, after⟩ := cut
    simp only [Option.map_some, List.all_cons, hinside, Bool.true_and]
    split
    · split <;> rfl
    · rfl

theorem stripAll_cons (hopen : c ≠ '$') (hclose : c ≠ '\x7d') (s : List Char) :
    stripAll (c :: s) = c :: stripAll s := by
  fun_induction stripAll s with
  | case1 s h =>
    have hfirst : stripFirst? (c :: s) = none := by rw [stripFirst?_cons hopen hclose, h]; rfl
    rw [stripAll]
    split
    · rfl
    · rename_i t ht
      rw [hfirst] at ht
      cases ht
  | case2 s t h _ ih =>
    have hfirst : stripFirst? (c :: s) = some (c :: t) := by
      rw [stripFirst?_cons hopen hclose, h]
      rfl
    rw [stripAll]
    split
    · rename_i ht
      rw [hfirst] at ht
      cases ht
    · rename_i u hu
      rw [hfirst] at hu
      cases hu
      exact ih

end Placeholder

theorem Text.trim_cons {c : Char} (hc : isBlank c = false) (s : List Char) :
    trim (c :: s) = c :: trimEnd s := by
  have hstart : trimStart (c :: s) = c :: s := List.dropWhile_cons_of_neg (by simp [hc])
  rw [trim, hstart, trimEnd, trimEnd, List.reverse_cons, List.dropWhile_append]
  split
  · rename_i hempty
    rw [List.isEmpty_iff.1 hempty]
    simp [hc]
  · simp

theorem Predicate.sql_all_single (p : Predicate) : (all [p]).sql = p.sql := by
  unfold all nonempty
  cases h : p.isEmpty with
  | true =>
    have hp : p.sql = "" := by simpa [isEmpty] using h
    simp [h, hp, ofSql]
  | false => simp [h, ofSql]

/-! ## Behind a backslash -/

namespace Condition

/-- What a text behind a backslash stands for. -/
def escapedText (v : String) : String :=
  String.ofList (Text.trimEnd (Placeholder.strip v).toList)

theorem expressionOf_escaped (v : String) :
    expressionOf ("\\" ++ v) = .escaped (escapedText v) := by
  have hstrip : (Placeholder.strip ("\\" ++ v)).toList = '\\' :: (Placeholder.strip v).toList := by
    rw [Placeholder.strip, Placeholder.strip, String.toList_ofList, String.toList_ofList,
      String.toList_append]
    exact Placeholder.stripAll_cons (by decide) (by decide) v.toList
  rw [expressionOf, Expression.ofString, hstrip]
  refine Expression.read_escaped ?_
  rw [Text.trim_cons (by decide), Expression.shape_eq_escaped_iff]

theorem isBlankText_escaped (v : String) : isBlankText ("\\" ++ v) = false := by
  rw [isBlankText, String.toList_append]
  show (Text.trim ('\\' :: v.toList)).isEmpty = false
  rw [Text.trim_cons (by decide)]
  rfl

theorem ofJson_escaped (v : String) :
    ofJson (.string ("\\" ++ v)) = .leaf (.literal (escapedText v)) :=
  ofJson_literal (isBlankText_escaped v) (.inr (expressionOf_escaped v))

/-- The predicate that a column equals a text; it belongs to the condition on rows. -/
def comparison (column text : String) : Clause → Predicate
  | .rows => ⟨"(" ++ column ++ " = '" ++ text ++ "')", false⟩
  | .groups => ⟨"", false⟩

theorem predicate_formula_escaped (scope : Scope) (clause : Clause) (column v : String) :
    ((ofJson (.string ("\\" ++ v))).formula scope clause column).predicate
      = comparison column (escapedText v) clause := by
  rw [ofJson_escaped, formula]
  cases clause with
  | rows =>
    show Predicate.ofSql (equality column (singleQuoted (escapedText v))) = _
    simp only [equality, singleQuoted, comparison, Predicate.ofSql, String.append_assoc]
    rfl
  | groups => rfl

theorem expressionOf_and {text : String} {args : List Char} {items : List Json}
    (hstrip : Placeholder.strip text = text)
    (htrim : Text.trim text.toList = Expression.callText "$And" args)
    (hread : Json.read args = .ok (.array items)) :
    expressionOf text = .operator (.allOf items) := by
  have hshape : Expression.Shape.of (Text.trim text.toList) = .call "$And" args := by
    rw [htrim]
    exact Expression.shape_of_mem_names (by decide) args
  rw [expressionOf, hstrip, Expression.ofString, Expression.read_of_call hshape,
    Argument.decode_of_read hread]
  rfl

/-- A text behind a backslash is compared with as it is, whatever it says: without its placeholders
and the blanks at its end, and for the condition on rows only. The same predicate comes of it as the
condition on a name, as an item of a list, and as an item of the JSON list behind `$And` where that
text holds no placeholders. -/
theorem predicate_escaped (scope : Scope) (clause : Clause) (name v : String) :
    let column := scope.qualify name
    let part (item : Json) := ((ofJson item).formula scope clause column).predicate
    let escaped := Json.string ("\\" ++ v)
    let compared := comparison column (escapedText v) clause
    part escaped = compared
    ∧ (Filter.ofJson (.object [(name, escaped)])).sql scope clause = compared.sql
    ∧ (∀ before after, part (.array (before ++ escaped :: after))
      = .any (before.map part ++ compared :: after.map part))
    ∧ ∀ text args before after, Placeholder.strip text = text →
      Text.trim text.toList = Expression.callText "$And" args →
      Json.read args = .ok (.array (before ++ escaped :: after)) →
      part (.string text) = .all (before.map part ++ compared :: after.map part) := by
  intro column part escaped compared
  have hpart : part escaped = compared := predicate_formula_escaped scope clause column v
  have hparts (before after : List Json) :
      ((before ++ escaped :: after).map fun item => (ofJson item).formula scope clause column).map
          Formula.predicate
        = before.map part ++ compared :: after.map part := by
    rw [List.map_map, List.map_append, List.map_cons, ← hpart]
    rfl
  refine ⟨hpart, ?_, fun before after => ?_, fun text args before after hstrip htrim hread => ?_⟩
  · show Formula.sql _ = _
    rw [Filter.ofJson, Filter.formula_object, List.map_singleton, Formula.sql,
      Formula.predicate_all, List.map_singleton, Predicate.sql_all_single]
    exact congrArg Predicate.sql hpart
  · show Formula.predicate _ = _
    rw [formula_array, Formula.predicate_any, hparts]
  · show Formula.predicate _ = _
    rw [formula_allOf scope clause column (expressionOf_and hstrip htrim hread),
      Formula.predicate_all, hparts]

/-- An operator behind a backslash is compared with as a text, also in a JSON list behind `$And`,
where the backslash is written twice. -/
theorem predicate_escaped_in :
    let scope : Scope := ⟨"user", false⟩
    let filter := Filter.ofJson (.object [("login", .string ("\\" ++ "$In($\x7ba\x7dx) "))])
    let args := ['[', '"', '\\', '\\', '$', 'I', 'n', '(', 'x', ')', '"', ']']
    let text := "$And([\"\\\\$In(x)\"])"
    filter.sql scope .rows = "(user.login = '$In(x)')" ∧ filter.sql scope .groups = ""
      ∧ Placeholder.strip text = text
      ∧ Text.trim text.toList = Expression.callText "$And" args
      ∧ Json.read args = .ok (.array [.string ("\\" ++ "$In(x)")])
      ∧ ((ofJson (.string text)).formula scope .rows "user.login").predicate
        = .all [⟨"(user.login = '$In(x)')", false⟩] := by
  intro scope filter args text
  have hstrip : Placeholder.strip text = text := by cbv
  have htrim : Text.trim text.toList = Expression.callText "$And" args := by cbv
  have hinside : Inside.scan ['\\', '\\', '$', 'I', 'n', '(', 'x', ')', '"', ']']
      = ⟨"\\$In(x)".toList, none, .ok [']']⟩ := by cbv
  have hread : Json.read args = .ok (.array [.string ("\\" ++ "$In(x)")]) := by
    rw [Json.read_list_string rfl rfl hinside rfl, String.ofList_toList]
    rfl
  obtain ⟨-, hrows, -⟩ := predicate_escaped scope .rows "login" "$In($\x7ba\x7dx) "
  obtain ⟨-, hgroups, -⟩ := predicate_escaped scope .groups "login" "$In($\x7ba\x7dx) "
  obtain ⟨-, -, -, hand⟩ := predicate_escaped scope .rows "login" "$In(x)"
  have hv : escapedText "$In($\x7ba\x7dx) " = "$In(x)" := by cbv
  have hx : escapedText "$In(x)" = "$In(x)" := by cbv
  refine ⟨?_, hgroups, hstrip, htrim, hread, (hand text args [] [] hstrip htrim hread).trans ?_⟩
  · rw [hrows, hv]
    rfl
  · rw [hx]
    rfl

end Condition

end QuerySql
