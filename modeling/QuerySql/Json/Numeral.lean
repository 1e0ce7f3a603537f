import QuerySql.Json.Basic
import QuerySql.Json.Fault

/-!
# JSON numerals

A numeral is the text of a number taken apart. `Numeral.scan` takes one from the front of a text;
`Numeral.number` gives its value. Digits are gathered while they fit 64 unsigned bits. Whole digits
beyond that only count as places, and gathering goes on behind the point as long as it fits. A
numeral without point and power that fits is an integer, `-0` excepted; every other one is the
gathered digits times or over a power of ten, each of them a binary64 number.
-/

namespace QuerySql

/-- A number as it is written. -/
structure Numeral where
  negative : Bool
  whole : List Char
  fraction : Option (List Char)
  /-- The sign of the power of ten, true when negative, and its digits. -/
  power : Option (Bool × List Char)

namespace Numeral

def scanDigits (s : List Char) : Except TextFault (List Char × List Char) :=
  match s.takeWhile Char.isDigit, s.dropWhile Char.isDigit with
  | [], [] => .error .unfinishedValue
  | [], _ :: _ => .error .badNumber
  | ds, rest => .ok (ds, rest)

/-- The whole part: a zero stands alone. -/
def scanWhole (s : List Char) : Except TextFault (List Char × List Char) := do
  let (ds, rest) ← scanDigits s
  match ds with
  | '0' :: _ :: _ => .error .badNumber
  | _ => .ok (ds, rest)

def scanFraction (s : List Char) : Except TextFault (Option (List Char) × List Char) :=
  match s with
  | '.' :: t => do
    let (ds, rest) ← scanDigits t
    return (some ds, rest)
  | _ => .ok (none, s)

/-- The sign of a power of ten; true when it is negative. -/
def scanSign : List Char → Bool × List Char
  | '-' :: t => (true, t)
  | '+' :: t => (false, t)
  | t => (false, t)

def scanPower (s : List Char) : Except TextFault (Option (Bool × List Char) × List Char) :=
  match s with
  | c :: t =>
    if c == 'e' || c == 'E' then do
      let (negative, u) := scanSign t
      let (ds, rest) ← scanDigits u
      return (some (negative, ds), rest)
    else .ok (none, s)
  | [] => .ok (none, s)

def scanMinus : List Char → Bool × List Char
  | '-' :: t => (true, t)
  | t => (false, t)

def scan (s : List Char) : Except TextFault (Numeral × List Char) := do
  let (negative, t) := scanMinus s
  let (whole, u) ← scanWhole t
  let (fraction, v) ← scanFraction u
  let (power, w) ← scanPower v
  return (⟨negative, whole, fraction, power⟩, w)

/-- The largest integer that digits are gathered to. -/
def greatestGathered : Nat := UInt64.size - 1

/-- The digits appended to `n` while the integer stays in range, and the digits left over. -/
def gather (n : Nat) : List Char → Nat × List Char
  | [] => (n, [])
  | c :: rest =>
    let m := 10 * n + Decimal.digitValue c
    if m ≤ greatestGathered then gather m rest else (n, c :: rest)

/-- The gathered digits and the power of ten that they are to be multiplied by. -/
def decimal (n : Numeral) : Decimal :=
  let (whole, left) := gather 0 n.whole
  let fraction := n.fraction.getD []
  let (digits, dropped) := gather whole fraction
  let power : Int := match n.power with
    | none => 0
    | some (true, ds) => -(Decimal.ofDigits ds : Int)
    | some (false, ds) => Decimal.ofDigits ds
  ⟨n.negative, digits, left.length - (fraction.length - dropped.length : Nat) + power⟩

/-- The integer that the numeral stands for, if it is one of the integers that are kept exact. -/
def integer? (n : Numeral) : Option Int :=
  match n.fraction, n.power, gather 0 n.whole with
  | none, none, (m, []) =>
    if !n.negative then some m
    else if 0 < m && Int64.minValue.toInt ≤ -m then some (-m)
    else none
  | _, _, _ => none

def number (n : Numeral) : Except TextFault Number :=
  match n.integer? with
  | some i => .ok (.int i)
  | none =>
    match n.decimal.scaled with
    | some x => .ok (.float x)
    | none => .error .numberTooLarge

theorem scanDigits_shorter {s ds rest : List Char} (h : scanDigits s = .ok (ds, rest)) :
    rest.length < s.length := by
  have hs := congrArg List.length (List.takeWhile_append_dropWhile (p := Char.isDigit) (l := s))
  rw [List.length_append] at hs
  unfold scanDigits at h
  split at h
  · cases h
  · cases h
  · rename_i hne _
    cases h
    cases hd : List.takeWhile Char.isDigit s with
    | nil =>
      cases hr : List.dropWhile Char.isDigit s with
      | nil => exact absurd hr (by grind)
      | cons c t => grind
    | cons c t => rw [hd, List.length_cons] at hs; omega

/-! ## Where a scan succeeds -/

variable {s ds rest : List Char}

theorem scanDigits_of_scanWhole (h : scanWhole s = .ok (ds, rest)) :
    scanDigits s = .ok (ds, rest) := by
  unfold scanWhole at h
  obtain ⟨⟨ds', u⟩, hd, h⟩ := exists_of_bind_eq_ok h
  dsimp only at h
  split at h
  · cases h
  · cases h
    exact hd

theorem scanFraction_cases {fraction : Option (List Char)}
    (h : scanFraction s = .ok (fraction, rest)) :
    rest = s ∨ ∃ t digits, s = '.' :: t ∧ scanDigits t = .ok (digits, rest) := by
  unfold scanFraction at h
  split at h
  · rename_i t
    obtain ⟨p, hd, h⟩ := exists_of_bind_eq_ok h
    cases h
    exact .inr ⟨t, p.1, rfl, hd⟩
  · cases h
    exact .inl rfl

theorem scanPower_cases {power : Option (Bool × List Char)}
    (h : scanPower s = .ok (power, rest)) :
    rest = s ∨ ∃ c t digits, (c = 'e' ∨ c = 'E') ∧ s = c :: t
      ∧ scanDigits (scanSign t).2 = .ok (digits, rest) := by
  unfold scanPower at h
  split at h
  · rename_i c t
    split at h
    · rename_i hc
      obtain ⟨p, hd, h⟩ := exists_of_bind_eq_ok h
      cases h
      exact .inr ⟨c, t, p.1, by simpa using hc, rfl, hd⟩
    · cases h
      exact .inl rfl
  · cases h
    exact .inl rfl

theorem exists_of_scan {n : Numeral} (h : scan s = .ok (n, rest)) :
    ∃ u v, scanWhole (scanMinus s).2 = .ok (n.whole, u) ∧ scanFraction u = .ok (n.fraction, v)
      ∧ scanPower v = .ok (n.power, rest) := by
  unfold scan at h
  obtain ⟨⟨whole, u⟩, hwhole, h⟩ := exists_of_bind_eq_ok h
  obtain ⟨⟨fraction, v⟩, hfraction, h⟩ := exists_of_bind_eq_ok h
  obtain ⟨⟨power, w⟩, hpower, h⟩ := exists_of_bind_eq_ok h
  cases h
  exact ⟨u, v, hwhole, hfraction, hpower⟩

/-! ## What is taken -/

theorem scanFraction_shorter {fraction : Option (List Char)}
    (h : scanFraction s = .ok (fraction, rest)) : rest.length ≤ s.length := by
  rcases scanFraction_cases h with rfl | ⟨t, digits, rfl, hd⟩
  · exact Nat.le_refl _
  · have := scanDigits_shorter hd
    simp only [List.length_cons]; omega

theorem length_scanSign_le (s : List Char) : (scanSign s).2.length ≤ s.length := by
  unfold scanSign
  split <;> simp

theorem scanPower_shorter {power : Option (Bool × List Char)}
    (h : scanPower s = .ok (power, rest)) : rest.length ≤ s.length := by
  rcases scanPower_cases h with rfl | ⟨c, t, digits, -, rfl, hd⟩
  · exact Nat.le_refl _
  · have := length_scanSign_le t
    have := scanDigits_shorter hd
    simp only [List.length_cons]; omega

theorem length_scanMinus_le (s : List Char) : (scanMinus s).2.length ≤ s.length := by
  unfold scanMinus
  split <;> simp

theorem scan_shorter {n : Numeral} (h : scan s = .ok (n, rest)) : rest.length < s.length := by
  obtain ⟨u, v, hwhole, hfraction, hpower⟩ := exists_of_scan h
  have := length_scanMinus_le s
  have := scanDigits_shorter (scanDigits_of_scanWhole hwhole)
  have := scanFraction_shorter hfraction
  have := scanPower_shorter hpower
  omega

end Numeral

end QuerySql
