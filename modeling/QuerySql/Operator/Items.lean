import QuerySql.Json.Basic
import QuerySql.Operator.Pieces
import QuerySql.Operator.Quote

/-!
# Items of an argument list

A list of arguments may stand between brackets. Each of its pieces, without the blanks around it,
is an operator call, a word of JSON, a number or text, in this order; quotes around text are taken
off. A blank last piece is no item.
-/

namespace QuerySql.Items

/-- Whether an item is an operator call, which stays text. -/
def isCall (t : List Char) : Bool :=
  t.head? == some '$' && t.elem '(' && t.getLast? == some ')'

/-- A numeral between arguments as it is taken apart: any leading sign, digits on at least one side
of the point, and a power of ten. -/
structure Numeral where
  negative : Bool
  whole : List Char
  /-- The digits behind the point, if there is a point. -/
  fraction : Option (List Char)
  /-- The power of ten, if there is one. -/
  power : Option Int

/-- A sign, true when negative, and the text behind it. -/
def takeSign : List Char → Bool × List Char
  | '-' :: t => (true, t)
  | '+' :: t => (false, t)
  | t => (false, t)

def takeFraction : List Char → Option (List Char) × List Char
  | '.' :: t => (some (t.takeWhile Char.isDigit), t.dropWhile Char.isDigit)
  | t => (none, t)

/-- The power of ten that the whole text writes; the outer `none` when it writes none. -/
def wholePower? : List Char → Option (Option Int)
  | [] => some none
  | c :: t =>
    if c == 'e' || c == 'E' then
      let (negative, ds) := takeSign t
      if !ds.isEmpty && ds.all Char.isDigit then
        let n : Int := Decimal.ofDigits ds
        some (some (if negative then -n else n))
      else none
    else none

def Numeral.ofText? (t : List Char) : Option Numeral :=
  let (negative, t) := takeSign t
  let whole := t.takeWhile Char.isDigit
  let (fraction, t) := takeFraction (t.dropWhile Char.isDigit)
  if whole.isEmpty && (fraction.getD []).isEmpty then none
  else (wholePower? t).map fun power => ⟨negative, whole, fraction, power⟩

/-- The least and the greatest integer that stay exact. -/
def leastInteger : Int := Int64.minValue.toInt

@[inherit_doc leastInteger]
def greatestInteger : Int := Int64.maxValue.toInt

/-- The integer that the numeral writes, if it has neither point nor power. -/
def Numeral.integer? (n : Numeral) : Option Int :=
  match n.fraction, n.power with
  | none, none =>
    let i : Int := Decimal.ofDigits n.whole
    let i := if n.negative then -i else i
    if leastInteger ≤ i && i ≤ greatestInteger then some i else none
  | _, _ => none

def Numeral.decimal (n : Numeral) : Decimal :=
  let fraction := n.fraction.getD []
  ⟨n.negative, Decimal.ofDigits (n.whole ++ fraction), n.power.getD 0 - fraction.length⟩

/-- The number that a whole text writes: an integer that stays exact, or else the closest binary64
number. -/
def number? (t : List Char) : Option Number := do
  let n ← Numeral.ofText? t
  match n.integer? with
  | some i => some (.int i)
  | none => n.decimal.nearest.map .float

def coerce (t : List Char) : Json :=
  if isCall t then .string (String.ofList t)
  else if t = ['t', 'r', 'u', 'e'] then .bool true
  else if t = ['f', 'a', 'l', 's', 'e'] then .bool false
  else if t = ['n', 'u', 'l', 'l'] then .null
  else
    match number? t with
    | some n => .number n
    | none => .string (String.ofList ((Text.unquote? t).getD t))

def dropBrackets (s : List Char) : List Char :=
  match s with
  | '[' :: rest => if rest.getLast? == some ']' then rest.dropLast else s
  | _ => s

def dropBlankLast (ps : List (List Char)) : List (List Char) :=
  match ps.getLast? with
  | some last => if (Text.trim last).isEmpty then ps.dropLast else ps
  | none => ps

def split (s : List Char) : List Json :=
  (dropBlankLast (Pieces.pieces (dropBrackets s))).map fun p => coerce (Text.trim p)

theorem weight_coerce_le (t : List Char) : (coerce t).weight ≤ t.length + 1 := by
  have hq : ((Text.unquote? t).getD t).length ≤ t.length := by
    cases h : Text.unquote? t with
    | none => exact Nat.le_refl _
    | some inner =>
      have := Text.length_of_unquote? h
      simp only [Option.getD_some]; omega
  unfold coerce
  repeat' split
  all_goals simp only [Json.weight, String.length_ofList]; omega

theorem length_dropBrackets_le (s : List Char) : (dropBrackets s).length ≤ s.length := by
  unfold dropBrackets
  split
  · split
    · simp only [List.length_dropLast, List.length_cons]; omega
    · exact Nat.le_refl _
  · exact Nat.le_refl _

theorem mem_of_mem_dropBlankLast {p : List Char} {ps : List (List Char)}
    (h : p ∈ dropBlankLast ps) : p ∈ ps := by
  unfold dropBlankLast at h
  split at h
  · split at h
    · exact (List.dropLast_sublist ps).subset h
    · exact h
  · exact h

theorem weight_le_of_mem_split {s : List Char} {v : Json} (h : v ∈ split s) :
    v.weight ≤ s.length + 1 := by
  obtain ⟨p, hp, rfl⟩ := List.mem_map.1 h
  have h₁ := Pieces.length_le_of_mem_pieces (mem_of_mem_dropBlankLast hp)
  have h₂ := length_dropBrackets_le s
  have h₃ := Text.length_trim_le p
  have h₄ := weight_coerce_le (Text.trim p)
  omega

end QuerySql.Items
