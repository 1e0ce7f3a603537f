import QuerySql.Operator.Argument
import QuerySql.Operator.Basic
import QuerySql.Operator.Items

/-!
# Reading expressions

`Expression.read` says what a string in a filter means. A text behind a backslash is escaped. A
text of the form `name(argument)` with the name of an operator and an argument that fits it is that
operator; any other text is a literal. The arguments of an operator weigh no more than its text is
long (`weight_le_of_read`), so a condition can be read from them in turn.
-/

namespace QuerySql

namespace Operator

/-- The items that a value stands for: of a list its items, of an empty text none, and else the
value itself. -/
def itemsOf : Json → List Json
  | .array items => items
  | .string s => if s.isEmpty then [] else [.string s]
  | v => [v]

/-- The conditions that a value stands for: of a list its items, of a text the items of the
argument list that it holds, and else the value itself. -/
def conditionsOf : Json → List Json
  | .array items => items
  | .string s => Items.split s.toList
  | v => [v]

/-- The operator of a name for an argument, `$Not` apart. -/
def ofCall? (name : String) (v : Json) : Option Operator :=
  match name with
  | "$Like" => some (.test (.like v))
  | "$ILike" => some (.test (.iLike v))
  | "$LessThan" => some (.test (.compare .lessThan v))
  | "$LessThanOrEqual" => some (.test (.compare .lessThanOrEqual v))
  | "$MoreThan" => some (.test (.compare .moreThan v))
  | "$MoreThanOrEqual" => some (.test (.compare .moreThanOrEqual v))
  | "$IsNull" => some (.test .isNull)
  | "$In" => some (.test (.oneOf (itemsOf v)))
  | "$Any" => some (.anyOf (itemsOf v))
  | "$And" => some (.allOf (conditionsOf v))
  | "$Between" =>
    match v with
    | .array (low :: high :: _) => some (.between low high)
    | _ => none
  | "$Max" => some (.aggregate .max v)
  | "$Min" => some (.aggregate .min v)
  | "$Sum" => some (.aggregate .sum v)
  | "$Avg" => some (.aggregate .avg v)
  | "$Count" => some (.aggregate .count v)
  | "$Total" => some (.aggregate .total v)
  | _ => none

theorem weight_le_of_mem_itemsOf {v w : Json} (h : w ∈ itemsOf v) : w.weight ≤ v.weight := by
  unfold itemsOf at h
  split at h
  · have := Json.weight_le_of_mem h
    simp only [Json.weight]; omega
  · split at h
    · cases h
    · exact Nat.le_of_eq (congrArg Json.weight (List.mem_singleton.1 h))
  · exact Nat.le_of_eq (congrArg Json.weight (List.mem_singleton.1 h))

theorem weight_le_of_mem_conditionsOf {v w : Json} (h : w ∈ conditionsOf v) :
    w.weight ≤ v.weight := by
  unfold conditionsOf at h
  split at h
  · have := Json.weight_le_of_mem h
    simp only [Json.weight]; omega
  · rename_i s
    have := Items.weight_le_of_mem_split h
    rw [String.length_toList] at this
    simpa [Json.weight] using this
  · exact Nat.le_of_eq (congrArg Json.weight (List.mem_singleton.1 h))

theorem weight_le_of_ofCall? {name : String} {v w : Json} {op : Operator}
    (h : ofCall? name v = some op) (hw : w ∈ op.arguments) : w.weight ≤ v.weight := by
  unfold ofCall? at h
  split at h
  case h_11 =>
    split at h
    · rename_i low high rest
      cases h
      simp only [Operator.arguments, List.mem_cons, List.not_mem_nil, or_false] at hw
      have hm : w ∈ low :: high :: rest := by rcases hw with rfl | rfl <;> simp
      have := Json.weight_le_of_mem hm
      simp only [Json.weight]; omega
    · cases h
  case h_8 => cases h; exact weight_le_of_mem_itemsOf hw
  case h_9 => cases h; exact weight_le_of_mem_itemsOf hw
  case h_10 => cases h; exact weight_le_of_mem_conditionsOf hw
  case h_7 => cases h; cases hw
  case h_18 => cases h
  all_goals
    cases h
    exact List.mem_singleton.1 hw ▸ Nat.le_refl _

end Operator

namespace Expression

def isNameChar (c : Char) : Bool := c != '('

/-- The name and the argument text of a call, if the text has that form. -/
def call? (t : List Char) : Option (String × List Char) :=
  match t.takeWhile isNameChar, t.dropWhile isNameChar with
  | name@(_ :: _), _ :: rest =>
    if rest.getLast? == some ')' then some (String.ofList name, rest.dropLast) else none
  | _, _ => none

theorem length_of_call? {t args : List Char} {name : String} (h : call? t = some (name, args)) :
    args.length + 3 ≤ t.length := by
  have hs := congrArg List.length (List.takeWhile_append_dropWhile (p := isNameChar) (l := t))
  rw [List.length_append] at hs
  unfold call? at h
  split at h
  · rename_i hn hr
    split at h
    · rename_i rest hl
      cases h
      rw [hn, hr, List.length_cons, List.length_cons] at hs
      cases rest with
      | nil => simp at hl
      | cons c r => simp only [List.length_dropLast, List.length_cons] at hs ⊢; omega
    · cases h
  · cases h

/-- Whether a text ends like a call, blanks apart. -/
def endsLikeCall (s : List Char) : Bool := (Text.trimEnd s).getLast? == some ')'

/-- The text behind `$Not` that may be an operator call. -/
def innerCall? : Json → Option (List Char)
  | .string text => if endsLikeCall text.toList then some text.toList else none
  | _ => none

theorem length_of_innerCall? {v : Json} {text : List Char} (h : innerCall? v = some text) :
    text.length < v.weight := by
  unfold innerCall? at h
  split at h
  · split at h
    · cases h; rw [String.length_toList, Json.weight]; omega
    · cases h
  · cases h

/-- The outer form of a text without blanks around it. -/
inductive Shape where
  | escaped (rest : List Char)
  | call (name : String) (args : List Char)
  | plain

/-- The outer form of a text; a backslash in front comes first. -/
def Shape.of : List Char → Shape
  | '\\' :: rest => .escaped rest
  | t =>
    match call? t with
    | some (name, args) => .call name args
    | none => .plain

theorem length_of_shape {t args : List Char} {name : String} (h : Shape.of t = .call name args) :
    args.length + 3 ≤ t.length := by
  unfold Shape.of at h
  split at h
  · cases h
  · split at h
    · rename_i hc
      cases h
      exact length_of_call? hc
    · cases h

theorem length_innerCall?_lt {s args text : List Char} {name : String}
    (h : Shape.of (Text.trim s) = .call name args)
    (hn : innerCall? (Argument.decode args) = some text) : text.length < s.length := by
  have := length_of_shape h
  have := length_of_innerCall? hn
  have := Argument.weight_decode_le args
  have := Text.length_trim_le s
  omega

def literalOf (s : List Char) : Expression := .literal (String.ofList (Text.trim s))

/-- What a string in a filter means. -/
def read (s : List Char) : Expression :=
  match h : Shape.of (Text.trim s) with
  | .escaped rest => .escaped (String.ofList rest)
  | .plain => literalOf s
  | .call name args =>
    let v := Argument.decode args
    if name = "$Not" then
      match hn : innerCall? v with
      | none => .operator (.notEqual v)
      | some text =>
        have := length_innerCall?_lt h hn
        match read text with
        | .operator (.test inner) => .operator (.not inner)
        | _ => .operator (.notEqual v)
    else
      match Operator.ofCall? name v with
      | some op => .operator op
      | none => literalOf s
termination_by s.length

theorem read_call {s args : List Char} {name : String} {op : Operator}
    (h : Shape.of (Text.trim s) = .call name args) (hn : name ≠ "$Not")
    (ho : Operator.ofCall? name (Argument.decode args) = some op) : read s = .operator op := by
  rw [read]
  split
  · rename_i h'; rw [h] at h'; cases h'
  · rename_i h'; rw [h] at h'; cases h'
  · rename_i h'
    rw [h] at h'
    cases h'
    simp only [hn, if_false, ho]

/-- The arguments of an operator weigh no more than the text it is read from is long. -/
theorem weight_le_of_read {s : List Char} {op : Operator} {v : Json}
    (h : read s = .operator op) (hv : v ∈ op.arguments) : v.weight ≤ s.length := by
  have hs := Text.length_trim_le s
  fun_induction read s generalizing op with
  | case1 => cases h
  | case2 => cases h
  | case3 s args w hn =>
    rename_i hc
    cases h
    have := length_of_shape hc
    have : w.weight ≤ args.length + 1 := Argument.weight_decode_le args
    rw [List.mem_singleton.1 hv]
    omega
  | case4 s args w text hn inner hr hc hlt =>
    rename_i ih
    cases h
    have := ih hr hv (Text.length_trim_le text)
    omega
  | case5 s args w text hn hr hc =>
    cases h
    have := length_of_shape hc
    have : w.weight ≤ args.length + 1 := Argument.weight_decode_le args
    rw [List.mem_singleton.1 hv]
    omega
  | case6 s name args hc w hne op' =>
    rename_i ho
    cases h
    have := length_of_shape hc
    have : w.weight ≤ args.length + 1 := Argument.weight_decode_le args
    have := Operator.weight_le_of_ofCall? ho hv
    omega
  | case7 => cases h

def ofString (s : String) : Expression := read s.toList

end Expression

end QuerySql
