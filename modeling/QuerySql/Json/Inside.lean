import QuerySql.Json.Fault

/-!
# The inside of a JSON string

`Inside.scan` takes the characters of a string from the text behind its opening quote. Some faults
end the scan; half a surrogate pair does not, since it concerns only those who want the characters.
Every character takes at least one of the text, and the closing quote one more
(`length_chars_lt`).
-/

namespace QuerySql

/-- The inside of a string as it was taken from a text. -/
structure Inside where
  chars : List Char
  /-- The first fault that concerns only a reader of the characters. -/
  readersFault : Option TextFault
  /-- The text behind the closing quote, or the fault that ended the scan. -/
  rest : Except TextFault (List Char)

namespace Inside

def hexValue? (c : Char) : Option Nat :=
  if '0' ≤ c && c ≤ '9' then some (c.toNat - '0'.toNat)
  else if 'a' ≤ c && c ≤ 'f' then some (c.toNat - 'a'.toNat + 10)
  else if 'A' ≤ c && c ≤ 'F' then some (c.toNat - 'A'.toNat + 10)
  else none

/-- Four hexadecimal digits from the front of the text. The text ends too early when fewer than
four bytes are left. -/
def hexFour (s : List Char) : Except TextFault (Nat × List Char) :=
  if (String.ofList (s.take 4)).utf8ByteSize < 4 then .error .unfinishedString
  else
    match s with
    | a :: b :: c :: d :: rest =>
      match hexValue? a, hexValue? b, hexValue? c, hexValue? d with
      | some a, some b, some c, some d => .ok (((a * 16 + b) * 16 + c) * 16 + d, rest)
      | _, _, _, _ => .error .badEscape
    | _ => .error .badEscape

/-- The first code point of the first half of a surrogate pair. -/
def firstHalf : Nat := 0xD800

def secondHalf : Nat := 0xDC00

/-- The code point behind the last half. -/
def halvesEnd : Nat := 0xE000

def pairChar (first second : Nat) : Char :=
  Char.ofNat ((first - firstHalf) * 0x400 + (second - secondHalf) + 0x10000)

/-- What an escape stands for, and the text behind it. -/
abbrev Escaped := Except TextFault Char × List Char

/-- The second half of a pair whose first half stands before `s`. Where `s` does not go on with a
second half, nothing of `s` is taken. -/
def scanSecondHalf (first : Nat) (s : List Char) : Except TextFault Escaped :=
  match s with
  | [] | ['\\'] => .error .unfinishedString
  | '\\' :: 'u' :: t => do
    let (second, rest) ← hexFour t
    if secondHalf ≤ second && second < halvesEnd then .ok (.ok (pairChar first second), rest)
    else .ok (.error .loneSurrogate, s)
  | _ => .ok (.error .unfinishedPair, s)

def scanCodePoint (s : List Char) : Except TextFault Escaped := do
  let (n, rest) ← hexFour s
  if n < firstHalf || halvesEnd ≤ n then .ok (.ok (Char.ofNat n), rest)
  else if secondHalf ≤ n then .ok (.error .loneSurrogate, rest)
  else scanSecondHalf n rest

/-- The character that a letter behind a backslash stands for. -/
def letter? : Char → Option Char
  | '"' => some '"'
  | '\\' => some '\\'
  | '/' => some '/'
  | 'b' => some '\x08'
  | 'f' => some '\x0c'
  | 'n' => some '\n'
  | 'r' => some '\r'
  | 't' => some '\t'
  | _ => none

def scanEscape : List Char → Except TextFault Escaped
  | [] => .error .unfinishedString
  | 'u' :: rest => scanCodePoint rest
  | c :: rest =>
    match letter? c with
    | some d => .ok (.ok d, rest)
    | none => .error .badEscape

/-- The inside with one more character in front, or with the fault that stands for it. -/
def push (c : Except TextFault Char) (i : Inside) : Inside :=
  match c with
  | .ok c => { i with chars := c :: i.chars }
  | .error f => { i with readersFault := some f }

/-! ## Where an escape is taken -/

variable {s rest : List Char} {c : Except TextFault Char} {n first : Nat}

theorem hexFour_cases (h : hexFour s = .ok (n, rest)) :
    ∃ digits, s = digits ++ rest ∧ digits.length = 4 ∧ ∀ d ∈ digits, (hexValue? d).isSome := by
  unfold hexFour at h
  split at h
  · cases h
  · split at h
    · split at h
      · rename_i ha hb hc hd
        cases h
        exact ⟨[_, _, _, _], rfl, rfl, by simp [ha, hb, hc, hd]⟩
      · cases h
    · cases h

theorem scanSecondHalf_cases (h : scanSecondHalf first s = .ok (c, rest)) :
    rest = s ∨ ∃ t second, s = '\\' :: 'u' :: t ∧ hexFour t = .ok (second, rest) := by
  unfold scanSecondHalf at h
  split at h
  · cases h
  · cases h
  · rename_i t
    obtain ⟨⟨second, u⟩, hx, h⟩ := exists_of_bind_eq_ok h
    dsimp only at h
    split at h
    · cases h
      exact .inr ⟨t, second, rfl, hx⟩
    · cases h
      exact .inl rfl
  · cases h
    exact .inl rfl

theorem scanEscape_cases (h : scanEscape s = .ok (c, rest)) :
    (∃ d, s = d :: rest) ∨ ∃ t u n, s = 'u' :: t ∧ hexFour t = .ok (n, u)
      ∧ (rest = u ∨ scanSecondHalf n u = .ok (c, rest)) := by
  unfold scanEscape at h
  split at h
  · cases h
  · rename_i t
    unfold scanCodePoint at h
    obtain ⟨⟨n, u⟩, hx, h⟩ := exists_of_bind_eq_ok h
    dsimp only at h
    refine .inr ⟨t, u, n, rfl, hx, ?_⟩
    split at h
    · cases h
      exact .inl rfl
    · split at h
      · cases h
        exact .inl rfl
      · exact .inr h
  · split at h
    · cases h
      exact .inl ⟨_, rfl⟩
    · cases h

theorem hexFour_shorter (h : hexFour s = .ok (n, rest)) : rest.length < s.length := by
  obtain ⟨digits, rfl, hlength, -⟩ := hexFour_cases h
  rw [List.length_append]
  omega

theorem scanSecondHalf_shorter (h : scanSecondHalf first s = .ok (c, rest)) :
    rest.length ≤ s.length := by
  rcases scanSecondHalf_cases h with rfl | ⟨t, second, rfl, hx⟩
  · exact Nat.le_refl _
  · have := hexFour_shorter hx
    simp only [List.length_cons]; omega

theorem scanEscape_shorter (h : scanEscape s = .ok (c, rest)) : rest.length < s.length := by
  rcases scanEscape_cases h with ⟨d, rfl⟩ | ⟨t, u, n, rfl, hx, hrest⟩
  · exact Nat.lt_succ_self _
  · have := hexFour_shorter hx
    rcases hrest with rfl | hh
    · simp only [List.length_cons]; omega
    · have := scanSecondHalf_shorter hh
      simp only [List.length_cons]; omega

def scan (s : List Char) : Inside :=
  match s with
  | [] => ⟨[], none, .error .unfinishedString⟩
  | '"' :: rest => ⟨[], none, .ok rest⟩
  | '\\' :: t =>
    match h : scanEscape t with
    | .error f => ⟨[], none, .error f⟩
    | .ok (c, rest) =>
      have := scanEscape_shorter h
      push c (scan rest)
  | c :: rest =>
    if c.toNat < 0x20 then ⟨[], none, .error .controlCharacter⟩
    else push (.ok c) (scan rest)
termination_by s.length
decreasing_by all_goals simp only [List.length_cons]; omega

theorem rest_push (c : Except TextFault Char) (i : Inside) : (push c i).rest = i.rest := by
  cases c <;> rfl

theorem length_push_le (c : Except TextFault Char) (i : Inside) :
    (push c i).chars.length ≤ i.chars.length + 1 := by
  cases c <;> simp [push]

theorem length_chars_lt (h : (scan s).rest = .ok rest) :
    (scan s).chars.length + rest.length < s.length := by
  fun_induction scan s with
  | case1 => cases h
  | case2 t => cases h; simp
  | case3 t f hf => cases h
  | case4 t c r hr _ ih =>
    rw [rest_push] at h
    have := ih h
    have := scanEscape_shorter hr
    have := length_push_le c (scan r)
    simp only [List.length_cons]; omega
  | case5 c t _ _ hc => cases h
  | case6 c t _ _ hc ih =>
    rw [rest_push] at h
    have := ih h
    have := length_push_le (.ok c) (scan t)
    simp only [List.length_cons]; omega

end Inside

end QuerySql
