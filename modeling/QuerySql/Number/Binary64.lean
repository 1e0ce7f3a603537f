/-!
# Binary64 numbers

A finite binary64 number is a sign, a coefficient below `2 ^ 53` and a power of two. All arithmetic
is exact on natural numbers and rounds once, at the end: `nearest` takes a quotient of natural
numbers to the closest binary64 number, ties to the even coefficient.
-/

namespace QuerySql

/-- The finite number `± coefficient * 2 ^ exponent`. -/
structure Binary64 where
  negative : Bool
  coefficient : Nat
  exponent : Int
  deriving DecidableEq, Repr

namespace Binary64

/-- All coefficients stand below `2 ^ 53`. -/
def coefficientBound : Nat := 9007199254740992

/-- The least coefficient of a number that is not close to zero. -/
def leastNormalCoefficient : Nat := 4503599627370496

/-- The exponent of the numbers closest to zero. -/
def leastExponent : Int := -1074

def greatestExponent : Int := 971

def zero (negative : Bool) : Binary64 := ⟨negative, 0, leastExponent⟩

def isZero (x : Binary64) : Bool := x.coefficient == 0

/-- The magnitude is `numerator / denominator`. -/
def numerator (x : Binary64) : Nat := x.coefficient <<< x.exponent.toNat

@[inherit_doc numerator]
def denominator (x : Binary64) : Nat := 1 <<< (-x.exponent).toNat

/-- The integer closest to `num / den`, a tie going to the even one. -/
def roundQuotient (num den : Nat) : Nat :=
  let q := num / den
  let twice := 2 * (num % den)
  if twice > den || (twice == den && q % 2 == 1) then q + 1 else q

/-- The coefficient closest to `num / den` in units of `2 ^ exponent`. -/
def coefficientAt (num den : Nat) (exponent : Int) : Nat :=
  roundQuotient (num <<< (-exponent).toNat) (den <<< exponent.toNat)

/-- The exponent at which `num / den` fills 53 bits, but never below the least one. -/
def exponentFor (num den : Nat) : Int :=
  let low := (num.log2 : Int) - den.log2 - 53
  let e := max low leastExponent
  if num <<< (-e).toNat < den <<< (e.toNat + 53) then e else e + 1

/-- The binary64 number closest to `num / den` with the sign given, ties to even; `none` when it
lies beyond the largest finite one. -/
def nearest (negative : Bool) (num den : Nat) : Option Binary64 :=
  if num = 0 then some (zero negative)
  else
    let e := exponentFor num den
    let c := coefficientAt num den e
    let (c, e) := if c = coefficientBound then (leastNormalCoefficient, e + 1) else (c, e)
    if e > greatestExponent then none else some ⟨negative, c, e⟩

def ofNat (n : Nat) : Option Binary64 := nearest false n 1

/-- The rounded product of the magnitudes; `none` when it is too large. -/
def times (x y : Binary64) : Option Binary64 :=
  nearest (x.negative != y.negative) (x.numerator * y.numerator) (x.denominator * y.denominator)

/-- The rounded quotient of the magnitudes by a number other than zero. -/
def dividedBy (x y : Binary64) : Option Binary64 :=
  nearest (x.negative != y.negative) (x.numerator * y.denominator) (x.denominator * y.numerator)

def withSign (negative : Bool) (x : Binary64) : Binary64 := { x with negative }

example : nearest false 1 1 = some ⟨false, 2 ^ 52, -52⟩ := by decide
example : nearest false 1 3 = some ⟨false, 6004799503160661, -54⟩ := by decide
example : nearest false (2 ^ 53 + 1) 1 = some ⟨false, 2 ^ 52, 1⟩ := by decide +kernel
example : nearest true (2 ^ 1024 - 2 ^ 970) 1 = none := by decide +kernel
example : (nearest false 1 (2 ^ 1074)).map coefficient = some 1 := by decide +kernel
example : nearest false 1 (2 ^ 1075) = some (zero false) := by decide +kernel

end Binary64

end QuerySql
