import QuerySql.Number.Decimal

/-!
# Shortest decimals

The shortest decimal that reads back as a given binary64 number. The reals that round to
`coefficient * 2 ^ exponent` form an interval around it, its ends included when the coefficient is
even. For one, two, up to seventeen digits the two neighbours of the number on that decimal grid
are tried in exact arithmetic; the first grid with a hit wins, of two hits the closer, and of two
equally close ones the even.
-/

namespace QuerySql

namespace Binary64

/-- Positive powers of two and ten go to the value side, negative ones to the grid side, so that
`value` and `step` are natural numbers: the grid point `k` is compared as `k * step`. -/
structure Grid where
  /-- A quarter of the number's last binary place. -/
  quarter : Nat
  /-- The distance between two points of the decimal grid. -/
  step : Nat

def grid (exponent power : Int) : Grid where
  quarter := Decimal.powerOfTen (-power).toNat <<< (exponent - 2).toNat
  step := Decimal.powerOfTen power.toNat <<< (2 - exponent).toNat

/-- How far the interval reaches down, in quarters of the last place: only half as far when the
next lower number is half as far away. -/
def reachBelow (x : Binary64) : Nat :=
  if x.coefficient = leastNormalCoefficient && leastExponent < x.exponent then 1 else 2

/-- Whether the grid point `k` lies in the interval of reals that round to `x`. -/
def covers (x : Binary64) (g : Grid) (k : Nat) : Bool :=
  let low := (4 * x.coefficient - reachBelow x) * g.quarter
  let high := (4 * x.coefficient + 2) * g.quarter
  if x.coefficient % 2 == 0 then low ≤ k * g.step && k * g.step ≤ high
  else low < k * g.step && k * g.step < high

/-- The grid point next to the number that reads back, if there is one. -/
def gridPoint? (x : Binary64) (g : Grid) : Option Nat :=
  let value := 4 * x.coefficient * g.quarter
  let k := value / g.step
  match covers x g k, covers x g (k + 1) with
  | true, true =>
    let below := value - k * g.step
    let above := (k + 1) * g.step - value
    some (if below < above || (below == above && k % 2 == 0) then k else k + 1)
  | true, false => some k
  | false, true => some (k + 1)
  | false, false => none

/-- The power of ten just above a number other than zero: `10 ^ (top - 1) ≤ x < 10 ^ top`. -/
def top (x : Binary64) : Int :=
  let n := x.numerator
  let d := x.denominator
  if d ≤ n then Decimal.width (n / d)
  else
    let c := (d + n - 1) / n
    1 - (if c ≤ 1 then 0 else Decimal.width (c - 1))

/-- The number without its final zeros, and how many there were; at most `fuel` are dropped. -/
def dropZeros : Nat → Nat → Nat × Nat
  | 0, n => (n, 0)
  | fuel + 1, n =>
    if n ≠ 0 && n % 10 = 0 then
      let (m, dropped) := dropZeros fuel (n / 10)
      (m, dropped + 1)
    else (n, 0)

/-- The shortest decimal that reads back as `x`, the closest one of that length. -/
def shortest (x : Binary64) : Decimal :=
  if x.isZero then ⟨x.negative, 0, 0⟩
  else
    let found := (List.range 17).findSome? fun n =>
      let power := top x - (n + 1 : Nat)
      (gridPoint? x (grid x.exponent power)).map fun k => (k, power)
    let (k, power) := found.getD (0, 0)
    let (digits, dropped) := dropZeros 20 k
    ⟨x.negative, digits, power + dropped⟩

example : (nearest false 1 10).map shortest = some ⟨false, 1, -1⟩ := by decide +kernel
example : shortest ⟨false, 1, -1074⟩ = ⟨false, 5, -324⟩ := by decide +kernel
example : shortest ⟨false, 2 ^ 53 - 1, 971⟩ = ⟨false, 17976931348623157, 292⟩ := by decide +kernel

end Binary64

end QuerySql
