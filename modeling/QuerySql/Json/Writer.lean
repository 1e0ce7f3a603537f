import QuerySql.Json.Basic

/-!
# Writing JSON

The compact text of a value: no blanks, the entries of an object in their order. A number that is
no integer is written with the fewest digits that read back, with a decimal point while its first
digit stands between the fifth place after the point and the sixteenth before it, and with a power
of ten beyond that. A string escapes the double quote, the backslash and the controls.
-/

namespace QuerySql

namespace Number

def digits (n : Nat) : List Char := Nat.toDigits 10 n

def intText (n : Int) : List Char :=
  if n < 0 then '-' :: digits n.natAbs else digits n.natAbs

/-- The most digits that stand before the point of a number written without a power of ten. -/
def mostBeforePoint : Int := 16

/-- The most zeros between the point and the first other digit, likewise. -/
def mostZerosAfterPoint : Int := 4

/-- The digits `ds` times `10 ^ exponent`, with a point and at least one digit on either side of it,
or in scientific form with a signed power. -/
def place (ds : List Char) (exponent : Int) : List Char :=
  let before : Int := ds.length + exponent
  if 0 ≤ exponent && before ≤ mostBeforePoint then
    ds ++ List.replicate exponent.toNat '0' ++ ['.', '0']
  else if 0 < before && before ≤ mostBeforePoint then
    ds.take before.toNat ++ '.' :: ds.drop before.toNat
  else if before ≤ 0 && -before ≤ mostZerosAfterPoint then
    ['0', '.'] ++ List.replicate (-before).toNat '0' ++ ds
  else
    let power := before - 1
    let mantissa := match ds with
      | [d] => [d]
      | d :: rest => d :: '.' :: rest
      | [] => []
    mantissa ++ 'e' :: (if power < 0 then '-' else '+') :: digits power.natAbs

/-- A binary64 number by its shortest decimal. -/
def floatText (x : Binary64) : List Char :=
  let d := x.shortest
  (if x.negative then ['-'] else []) ++ place (digits d.digits) d.exponent

def chars : Number → List Char
  | int n => intText n
  | float x => floatText x

def text (n : Number) : String := String.ofList n.chars

theorem place_ne_nil (ds : List Char) (exponent : Int) : place ds exponent ≠ [] := by
  fun_cases place ds exponent <;> simp

theorem text_ne_empty (n : Number) : n.text ≠ "" := by
  refine mt String.ofList_eq_empty_iff.1 ?_
  cases n with
  | int n =>
    rw [chars, intText]
    split
    · exact List.cons_ne_nil _ _
    · exact Nat.toDigits_ne_nil
  | float x => exact List.append_ne_nil_of_right_ne_nil _ (place_ne_nil _ _)

end Number

namespace Json

def hexByte (n : Nat) : List Char :=
  [Nat.digitChar (n / 16), Nat.digitChar (n % 16)]

def escapeChar (c : Char) : List Char :=
  match c with
  | '"' => ['\\', '"']
  | '\\' => ['\\', '\\']
  | '\x08' => ['\\', 'b']
  | '\x0c' => ['\\', 'f']
  | '\n' => ['\\', 'n']
  | '\r' => ['\\', 'r']
  | '\t' => ['\\', 't']
  | c => if c.toNat < 0x20 then ['\\', 'u', '0', '0'] ++ hexByte c.toNat else [c]

def stringChars (s : String) : List Char :=
  '"' :: s.toList.flatMap escapeChar ++ ['"']

mutual

def chars : Json → List Char
  | null => ['n', 'u', 'l', 'l']
  | bool true => ['t', 'r', 'u', 'e']
  | bool false => ['f', 'a', 'l', 's', 'e']
  | number n => n.chars
  | string s => stringChars s
  | array items => '[' :: itemsChars items ++ [']']
  | object entries => '\x7b' :: entriesChars entries ++ ['\x7d']

def itemsChars : List Json → List Char
  | [] => []
  | [v] => chars v
  | v :: rest => chars v ++ ',' :: itemsChars rest

def entriesChars : List (String × Json) → List Char
  | [] => []
  | [(name, v)] => stringChars name ++ ':' :: chars v
  | (name, v) :: rest => stringChars name ++ ':' :: chars v ++ ',' :: entriesChars rest

end

def text (v : Json) : String := String.ofList v.chars

mutual

/-- The text of a value as an argument: strings without quotes, items with commas between them,
and everything else as JSON. -/
def plainChars : Json → List Char
  | string s => s.toList
  | array items => plainItems items
  | v => chars v

def plainItems : List Json → List Char
  | [] => []
  | [v] => plainChars v
  | v :: rest => plainChars v ++ ',' :: plainItems rest

end

def plain (v : Json) : String := String.ofList v.plainChars

end Json

end QuerySql
