import QuerySql.Number.Decimal
import QuerySql.Toml.Lexical
import QuerySql.Toml.Node

/-!
# TOML numbers, dates and times

Integers have 64 signed bits and may be written in base ten, sixteen, eight or two, with single
underscores between digits. A number with a point or a power must not be beyond the largest finite
one, unless it is negative. Dates are dates of the calendar; a time has its seconds, of which there
may be sixty.
-/

namespace QuerySql.Toml

/-- Further digits, each of which may stand behind one underscore. -/
def moreDigits (isDigit : Char → Bool) : List Char → List Char × List Char
  | '_' :: c :: rest =>
    if isDigit c then
      let (ds, rest) := moreDigits isDigit rest
      (c :: ds, rest)
    else ([], '_' :: c :: rest)
  | c :: rest =>
    if isDigit c then
      let (ds, rest) := moreDigits isDigit rest
      (c :: ds, rest)
    else ([], c :: rest)
  | [] => ([], [])

def digits (isDigit : Char → Bool) : Scan (List Char)
  | c :: rest =>
    if isDigit c then
      let (ds, rest) := moreDigits isDigit rest
      some (c :: ds, rest)
    else none
  | [] => none

def sign : List Char → Bool × List Char
  | '-' :: rest => (true, rest)
  | '+' :: rest => (false, rest)
  | s => (false, s)

/-- The digits of a decimal integer: a zero stands alone. -/
def wholeDigits : Scan (List Char)
  | '0' :: rest => some (['0'], rest)
  | s => digits Char.isDigit s

def ofDigits (base : Nat) (ds : List Char) : Nat :=
  ds.foldl (fun n c => base * n + (Inside.hexValue? c).getD 0) 0

/-- The integer, if it has 64 signed bits. -/
def inRange (n : Int) (rest : List Char) : Option (Node × List Char) :=
  if Int64.minValue.toInt ≤ n && n ≤ Int64.maxValue.toInt then some (.integer n, rest) else none

def isDigitOf (base : Nat) (c : Char) : Bool := (Inside.hexValue? c).any (· < base)

/-- An integer in a base other than ten, behind its mark. -/
def integerIn (base : Nat) : Scan Node := fun s => do
  let (ds, rest) ← digits (isDigitOf base) s
  inRange (ofDigits base ds) rest

def integer : Scan Node
  | '0' :: 'x' :: rest => integerIn 16 rest
  | '0' :: 'o' :: rest => integerIn 8 rest
  | '0' :: 'b' :: rest => integerIn 2 rest
  | s => do
    let (negative, rest) := sign s
    let (ds, rest) ← wholeDigits rest
    let n : Int := ofDigits 10 ds
    inRange (if negative then -n else n) rest

def fraction : Scan (List Char)
  | '.' :: rest => digits Char.isDigit rest
  | _ => none

def power : Scan Int
  | c :: rest =>
    if c == 'e' || c == 'E' then do
      let (negative, rest) := sign rest
      let (ds, rest) ← digits Char.isDigit rest
      let n : Int := ofDigits 10 ds
      some (if negative then -n else n, rest)
    else none
  | [] => none

/-- A number with a point, a power or both. -/
def decimal : Scan Decimal := fun s => do
  let (negative, rest) := sign s
  let (whole, rest) ← wholeDigits rest
  match fraction rest with
  | some (ds, rest) =>
    let (n, rest) := (power rest).getD (0, rest)
    some (⟨negative, ofDigits 10 (whole ++ ds), n - ds.length⟩, rest)
  | none =>
    let (n, rest) ← power rest
    some (⟨negative, ofDigits 10 whole, n⟩, rest)

/-- A number that is no integer; infinity and what is no number are written by name. -/
def float : Scan Node := fun s =>
  match decimal s with
  | some (d, rest) => if d.negative || d.nearest.isSome then some (.scalar, rest) else none
  | none =>
    match (sign s).2 with
    | 'i' :: 'n' :: 'f' :: rest | 'n' :: 'a' :: 'n' :: rest => some (.scalar, rest)
    | _ => none

/-- An integer of exactly `count` digits between two bounds. -/
def fixed (count low high : Nat) : Scan Nat := fun s =>
  let ds := s.take count
  let n := ofDigits 10 ds
  if ds.length = count && ds.all Char.isDigit && low ≤ n && n ≤ high then some (n, s.drop count)
  else none

def char (c : Char) : Scan Unit
  | d :: rest => if d = c then some ((), rest) else none
  | [] => none

def isLeap (year : Nat) : Bool := year % 4 == 0 && (year % 100 != 0 || year % 400 == 0)

def daysIn (year month : Nat) : Nat :=
  if month == 2 then if isLeap year then 29 else 28
  else if month == 4 || month == 6 || month == 9 || month == 11 then 30
  else 31

def date : Scan Unit := fun s => do
  let (year, s) ← fixed 4 0 9999 s
  let (_, s) ← char '-' s
  let (month, s) ← fixed 2 1 12 s
  let (_, s) ← char '-' s
  let (_, s) ← fixed 2 1 (daysIn year month) s
  return ((), s)

def skipSecondParts (s : List Char) : List Char :=
  match s with
  | '.' :: c :: rest => if c.isDigit then rest.dropWhile Char.isDigit else s
  | _ => s

def time : Scan Unit := fun s => do
  let (_, s) ← fixed 2 0 23 s
  let (_, s) ← char ':' s
  let (_, s) ← fixed 2 0 59 s
  let (_, s) ← char ':' s
  let (_, s) ← fixed 2 0 60 s
  return ((), skipSecondParts s)

/-- How far a time is from universal time. -/
def zone : Scan Unit
  | 'Z' :: rest | 'z' :: rest => some ((), rest)
  | c :: rest =>
    if c == '+' || c == '-' then do
      let (_, s) ← fixed 2 0 23 rest
      let (_, s) ← char ':' s
      let (_, s) ← fixed 2 0 59 s
      return ((), s)
    else none
  | [] => none

/-- The text behind a time of day and its zone, if it goes on with a time. -/
def skipTime (s : List Char) : List Char :=
  match s with
  | c :: rest =>
    if c == 'T' || c == 't' || c == ' ' then
      match time rest with
      | some (_, rest) => ((zone rest).map Prod.snd).getD rest
      | none => s
    else s
  | [] => s

/-- A date, with a time or without, or a time. -/
def moment : Scan Node := fun s =>
  match date s with
  | some (_, rest) => some (.moment, skipTime rest)
  | none => (time s).map fun (_, rest) => (.moment, rest)

def number : Scan Node := fun s =>
  (moment s).or ((float s).or (integer s))

end QuerySql.Toml
