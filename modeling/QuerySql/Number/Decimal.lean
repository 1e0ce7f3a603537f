import QuerySql.Number.Binary64

/-!
# Decimal numbers

A decimal number as it is written: a sign, an integer of digits and a power of ten. There are two
ways to a binary64 number: `nearest` rounds once, `scaled` rounds the digits, the power of ten and
their product or quotient each in turn. Both give `none` beyond the largest finite number.
-/

namespace QuerySql

/-- The number `± digits * 10 ^ exponent`. -/
structure Decimal where
  negative : Bool
  digits : Nat
  exponent : Int
  deriving DecidableEq, Repr

namespace Decimal

def digitValue (c : Char) : Nat := c.toNat - '0'.toNat

def ofDigits (digits : List Char) : Nat :=
  digits.foldl (fun n c => 10 * n + digitValue c) 0

def powerOfTen (n : Nat) : Nat := Nat.pow 10 n

def width (n : Nat) : Nat := (Nat.toDigits 10 n).length

/-- The closest binary64 number. A number of at least `10 ^ 310` is beyond the largest finite one
and a number below `10 ^ -330` is closest to zero, so large powers are not computed. -/
def nearest (d : Decimal) : Option Binary64 :=
  let top := width d.digits + d.exponent
  if d.digits = 0 || top < -330 then some (Binary64.zero d.negative)
  else if top > 310 then none
  else Binary64.nearest d.negative
    (d.digits * powerOfTen d.exponent.toNat) (powerOfTen (-d.exponent).toNat)

/-- The largest power of ten below every overflow. -/
def greatestPower : Nat := 308

/-- The number over `10 ^ power`, divided by at most `10 ^ 308` at a time. -/
def overPower (x : Binary64) (power : Nat) : Option Binary64 :=
  if power ≤ greatestPower then do x.dividedBy (← Binary64.ofNat (powerOfTen power))
  else if x.isZero then some x
  else do
    overPower (← x.dividedBy (← Binary64.ofNat (powerOfTen greatestPower))) (power - greatestPower)
termination_by power
decreasing_by simp [greatestPower] at *; omega

/-- The digits as a binary64 number, times or over a power of ten as a binary64 number. -/
def scaled (d : Decimal) : Option Binary64 := do
  let x ← Binary64.ofNat d.digits
  let y ←
    if d.exponent < 0 then overPower x (-d.exponent).toNat
    else if d.exponent ≤ greatestPower then x.times (← Binary64.ofNat (powerOfTen d.exponent.toNat))
    else if x.isZero then some x
    else none
  return y.withSign d.negative

example : nearest ⟨false, 1, 400⟩ = none := by decide +kernel
example : nearest ⟨true, 5, -324⟩ = some ⟨true, 1, -1074⟩ := by decide +kernel
example : nearest ⟨false, 15, -1⟩ = Binary64.nearest false 3 2 := by decide +kernel

end Decimal

end QuerySql
