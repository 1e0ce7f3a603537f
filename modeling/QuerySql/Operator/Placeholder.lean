import QuerySql.Text.Blank

/-!
# Placeholders

A placeholder starts with a dollar sign and an opening brace and ends with the next closing brace.
Placeholders are taken out one by one, from the left, as long as the first closing brace of the
text stands behind the first opening of a placeholder.
-/

namespace QuerySql.Placeholder

/-- The text before the first opening of a placeholder and the text behind that opening. -/
def breakAtOpening? : List Char → Option (List Char × List Char)
  | [] => none
  | '$' :: '\x7b' :: rest => some ([], rest)
  | c :: rest => (breakAtOpening? rest).map fun (before, after) => (c :: before, after)

def isInside (c : Char) : Bool := c != '\x7d'

/-- The text without its first placeholder, if the first closing brace ends one. -/
def stripFirst? (s : List Char) : Option (List Char) :=
  match breakAtOpening? s with
  | none => none
  | some (before, after) =>
    if before.all isInside then
      match after.dropWhile isInside with
      | [] => none
      | _ :: rest => some (before ++ rest)
    else none

theorem length_of_breakAtOpening? {s before after : List Char}
    (h : breakAtOpening? s = some (before, after)) :
    before.length + after.length + 2 = s.length := by
  fun_induction breakAtOpening? s generalizing before with
  | case1 => cases h
  | case2 rest => cases h; simp
  | case3 c rest _ ih =>
    obtain ⟨⟨b, a⟩, hb, he⟩ := Option.map_eq_some_iff.1 h
    cases he
    have := ih hb
    simp only [List.length_cons]; omega

theorem stripFirst?_shorter {s t : List Char} (h : stripFirst? s = some t) :
    t.length < s.length := by
  unfold stripFirst? at h
  split at h
  · cases h
  · rename_i before after hb
    split at h
    · split at h
      · cases h
      · rename_i c rest hr
        cases h
        have := length_of_breakAtOpening? hb
        have := Text.length_dropWhile_le isInside after
        simp only [hr, List.length_cons] at this
        simp only [List.length_append]; omega
    · cases h

def stripAll (s : List Char) : List Char :=
  match h : stripFirst? s with
  | none => s
  | some t =>
    have := stripFirst?_shorter h
    stripAll t
termination_by s.length

theorem length_stripAll_le (s : List Char) : (stripAll s).length ≤ s.length := by
  fun_induction stripAll s with
  | case1 => exact Nat.le_refl _
  | case2 s t h _ ih =>
    have := stripFirst?_shorter h
    omega

theorem breakAtOpening?_eq_none {s : List Char} (h : '$' ∉ s) : breakAtOpening? s = none := by
  fun_induction breakAtOpening? s with
  | case1 => rfl
  | case2 rest => exact absurd List.mem_cons_self h
  | case3 c rest _ ih => rw [ih fun hm => h (List.mem_cons_of_mem c hm)]; rfl

theorem stripAll_eq_self {s : List Char} (h : '$' ∉ s) : stripAll s = s := by
  have hn : stripFirst? s = none := by rw [stripFirst?, breakAtOpening?_eq_none h]
  unfold stripAll
  split
  · rfl
  · rename_i t ht
    rw [hn] at ht
    cases ht

def strip (s : String) : String := String.ofList (stripAll s.toList)

end QuerySql.Placeholder
