import QuerySql.Operator.Items

/-!
# Settings

The one setting is the number of rows to take where a request does not say. A text, such as the
value of an environment variable, overrides it: a number below `2 ^ 32` in decimal digits, with or
without a plus sign, and blanks around it. The number is read in 32 bits, digit by digit, and there
is none as soon as a digit leads beyond them.
-/

namespace QuerySql

structure Settings where
  defaultLimit : UInt32 := 20
  deriving DecidableEq, Repr

namespace Settings

/-- Why settings cannot be had. -/
inductive Fault where
  /-- The text is no number of rows. -/
  | notANumber (raw : String)
  /-- The document with the settings cannot be read, or does not hold them. -/
  | badDocument
  /-- There is no document. -/
  | noDocument
  deriving DecidableEq, Repr

/-- The name under which a text overrides the limit. -/
def overrideName : String := "RELQUERY_DEFAULT_LIMIT"

def Fault.message? : Fault → Option String
  | notANumber raw =>
    some ("Configuration error: " ++ Settings.overrideName
      ++ " must be a non-negative integer, got '" ++ raw ++ "'")
  | badDocument | noDocument => none

/-- The digits of a numeral without a sign or behind a plus sign. -/
def digitsOf : List Char → List Char
  | '+' :: t => t
  | t => t

/-- Ten times a number with a digit behind it, if 32 bits hold both. -/
def withDigit? (n : UInt32) (c : Char) : Option UInt32 :=
  let digit := UInt32.ofNat (Decimal.digitValue c)
  if !c.isDigit then none
  else if n.toBitVec.umulOverflow 10 then none
  else if (n * 10).toBitVec.uaddOverflow digit.toBitVec then none
  else some (n * 10 + digit)

/-- The number that a numeral without blanks writes. -/
def numeral? (t : List Char) : Option UInt32 :=
  let ds := digitsOf t
  if ds.isEmpty then none else ds.foldlM withDigit? 0

/-- The settings with the limit that the text gives, if there is a text. -/
def override (s : Settings) : Option String → Except Fault Settings
  | none => .ok s
  | some raw =>
    match numeral? (Text.trim raw.toList) with
    | some n => .ok { s with defaultLimit := n }
    | none => .error (.notANumber raw)

end Settings

end QuerySql
