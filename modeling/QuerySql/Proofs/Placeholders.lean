import Mathlib
import QuerySql.Operator.Placeholder

/-!
# What placeholders are left

Placeholders are taken out from the left until a closing brace stands in front of all openings. A
scanner tells that brace without taking anything out: it is the first one that ends no placeholder
(`behindStray?`). All that stands behind it stays, so a placeholder is left exactly where one
stands there (`hasPlaceholder_strip_iff`).
-/

namespace QuerySql.Placeholder

/-- Whether an opening of a placeholder stands in the text, and a closing brace behind it. -/
def HasPlaceholder (s : List Char) : Prop :=
  ∃ before inside after, s = before ++ '$' :: '\x7b' :: inside ++ '\x7d' :: after

/-- Where a character stands in the text without the placeholders before it. -/
inductive Mode where
  /-- Outside of placeholders, directly behind so many dollar signs. -/
  | outside (dollars : Nat)
  /-- In a placeholder directly behind so many dollar signs. -/
  | inside (dollars : Nat)
  deriving DecidableEq, Repr

def Mode.next (c : Char) : Mode → Mode
  | outside 0 => if c = '$' then outside 1 else outside 0
  | outside (n + 1) =>
    if c = '$' then outside (n + 2) else if c = '\x7b' then inside n else outside 0
  | inside n => if c = '\x7d' then outside n else inside n

def Mode.after (m : Mode) (s : List Char) : Mode := s.foldl (fun m c => m.next c) m

def Mode.isOutside : Mode → Bool
  | outside _ => true
  | inside _ => false

/-- The text behind the first closing brace that ends no placeholder. -/
def behindStray? (m : Mode) : List Char → Option (List Char)
  | [] => none
  | c :: rest =>
    if m.isOutside ∧ c = '\x7d' then some rest else behindStray? (m.next c) rest

example : behindStray? (.outside 0) ['$', '$', '\x7b', '\x7d', '\x7b', 'a', '\x7d', '\x7d', 'b']
    = some ['b'] := by
  decide

/-! ## Openings -/

variable {s t before after rest : List Char} {n : Nat}

theorem breakAtOpening?_eq_some (h : breakAtOpening? s = some (before, after)) :
    s = before ++ '$' :: '\x7b' :: after ∧ breakAtOpening? before = none := by
  fun_induction breakAtOpening? s generalizing before with
  | case1 => cases h
  | case2 rest => cases h; exact ⟨rfl, rfl⟩
  | case3 c rest hne ih =>
    obtain ⟨⟨b, a⟩, hb, he⟩ := Option.map_eq_some_iff.1 h
    cases he
    obtain ⟨hrest, hnone⟩ := ih hb
    refine ⟨congrArg (c :: ·) hrest, ?_⟩
    unfold breakAtOpening?
    split
    · rfl
    · rename_i u heq
      obtain ⟨hc, hu⟩ := List.cons.inj heq
      exact (hne _ hc (by rw [hrest, hu]; rfl)).elim
    · rename_i d u _ heq
      obtain ⟨-, rfl⟩ := List.cons.inj heq
      rw [hnone]
      rfl

theorem exists_breakAtOpening? (a t : List Char) : ∃ before after,
    breakAtOpening? (a ++ '$' :: '\x7b' :: t) = some (before, after) ∧ t <:+ after := by
  induction a with
  | nil => exact ⟨[], t, rfl, List.suffix_rfl⟩
  | cons c a ih =>
    obtain ⟨before, after, hb, ht⟩ := ih
    rw [List.cons_append]
    unfold breakAtOpening?
    split
    · rename_i heq; cases heq
    · rename_i u heq
      refine ⟨[], u, rfl, ?_⟩
      obtain ⟨-, hu⟩ := List.cons.inj heq
      -- The opening that is given stands behind this one, since it is not the brace of this one.
      cases a with
      | nil => cases hu
      | cons d a =>
        obtain ⟨-, rfl⟩ := List.cons.inj hu
        exact ⟨a ++ ['$', '\x7b'], by simp⟩
    · rename_i d u _ heq
      obtain ⟨rfl, rfl⟩ := List.cons.inj heq
      exact ⟨c :: before, after, by rw [hb]; rfl, ht⟩

theorem breakAtOpening?_append_eq_none (h : breakAtOpening? (s ++ t) = none) :
    breakAtOpening? s = none := by
  cases hs : breakAtOpening? s with
  | none => rfl
  | some cut =>
    obtain ⟨rfl, -⟩ := breakAtOpening?_eq_some hs
    obtain ⟨before, after, hb, -⟩ := exists_breakAtOpening? cut.1 (cut.2 ++ t)
    rw [List.append_assoc] at h
    exact absurd (h.symm.trans hb) (Option.some_ne_none _).symm

/-- A placeholder stands in a text exactly where a closing brace stands behind the first opening. -/
theorem hasPlaceholder_iff : HasPlaceholder s
    ↔ ∃ before after, breakAtOpening? s = some (before, after) ∧ '\x7d' ∈ after := by
  constructor
  · rintro ⟨a, inside, b, rfl⟩
    obtain ⟨before, after, hb, ht⟩ := exists_breakAtOpening? a (inside ++ '\x7d' :: b)
    rw [List.append_assoc]
    exact ⟨before, after, hb, ht.subset (by simp)⟩
  · rintro ⟨before, after, hb, hm⟩
    obtain ⟨inside, b, rfl⟩ := List.append_of_mem hm
    exact ⟨before, inside, b, by simp [(breakAtOpening?_eq_some hb).1]⟩

theorem HasPlaceholder.of_suffix (h : HasPlaceholder t) (ht : t <:+ s) : HasPlaceholder s := by
  obtain ⟨front, rfl⟩ := ht
  obtain ⟨before, inside, after, rfl⟩ := h
  exact ⟨front ++ before, inside, after, by simp⟩

/-! ## Steps of the scanner -/

variable {m : Mode}

theorem suffix_of_behindStray? (h : behindStray? m s = some rest) : rest <:+ s := by
  induction s generalizing m with
  | nil => cases h
  | cons c u ih =>
    unfold behindStray? at h
    split at h
    · cases h
      exact List.suffix_cons c _
    · exact (ih h).trans (List.suffix_cons c u)

theorem behindStray?_append (h : '\x7d' ∉ before) (s : List Char) :
    behindStray? m (before ++ s) = behindStray? (m.after before) s := by
  induction before generalizing m with
  | nil => rfl
  | cons c before ih =>
    have hc : ¬ (m.isOutside ∧ c = '\x7d') := fun hc => h (hc.2 ▸ List.mem_cons_self)
    rw [List.cons_append, behindStray?, if_neg hc, ih fun hm => h (List.mem_cons_of_mem c hm)]
    rfl

theorem Mode.after_inside (h : '\x7d' ∉ before) :
    Mode.after (.inside n) before = .inside n := by
  induction before with
  | nil => rfl
  | cons c before ih =>
    have hc : c ≠ '\x7d' := fun hc => h (hc ▸ List.mem_cons_self)
    rw [Mode.after, List.foldl_cons, Mode.next, if_neg hc]
    exact ih fun hm => h (List.mem_cons_of_mem c hm)

theorem Mode.after_outside (h : breakAtOpening? before = none)
    (hn : n = 0 ∨ before.head? ≠ some '\x7b') :
    ∃ k, Mode.after (.outside n) before = .outside k := by
  fun_induction breakAtOpening? before generalizing n with
  | case1 => exact ⟨n, rfl⟩
  | case2 => cases h
  | case3 c before hne ih =>
    have hnone : breakAtOpening? before = none := Option.map_eq_none_iff.1 h
    rw [Mode.after, List.foldl_cons]
    by_cases hc : c = '$'
    · have hhead : before.head? ≠ some '\x7b' := by
        intro hhead
        obtain ⟨u, rfl⟩ := List.head?_eq_some_iff.1 hhead
        exact hne u hc rfl
      have hnext : Mode.next c (.outside n) = .outside (n + 1) := by
        cases n <;> simp [Mode.next, hc]
      rw [hnext]
      exact ih hnone (.inr hhead)
    · have hnext : Mode.next c (.outside n) = .outside 0 := by
        cases n with
        | zero => simp [Mode.next, hc]
        | succ n =>
          have hbrace : c ≠ '\x7b' := by simpa using hn
          simp [Mode.next, hc, hbrace]
      rw [hnext]
      exact ih hnone (.inl rfl)

/-- The scanner passes over a placeholder as if it were not there. -/
theorem behindStray?_placeholder {inside : List Char} (hb : breakAtOpening? before = none)
    (hbefore : '\x7d' ∉ before) (hinside : '\x7d' ∉ inside) (s : List Char) :
    behindStray? (.outside 0) (before ++ '$' :: '\x7b' :: inside ++ '\x7d' :: s)
      = behindStray? (.outside 0) (before ++ s) := by
  obtain ⟨k, hk⟩ := Mode.after_outside hb (.inl rfl)
  have hopen : Mode.after (.outside k) ['$', '\x7b'] = .inside k := by cases k <;> rfl
  calc behindStray? (.outside 0) (before ++ '$' :: '\x7b' :: inside ++ '\x7d' :: s)
      = behindStray? (.outside 0) (before ++ (['$', '\x7b'] ++ (inside ++ '\x7d' :: s))) := by
        simp
    _ = behindStray? (.inside k) ('\x7d' :: s) := by
        rw [behindStray?_append hbefore, hk, behindStray?_append (by decide), hopen,
          behindStray?_append hinside, Mode.after_inside hinside]
    _ = behindStray? (.outside k) s := rfl
    _ = behindStray? (.outside 0) (before ++ s) := by rw [behindStray?_append hbefore, hk]

theorem behindStray?_close (hb : breakAtOpening? before = none) (hbefore : '\x7d' ∉ before)
    (s : List Char) : behindStray? (.outside 0) (before ++ '\x7d' :: s) = some s := by
  obtain ⟨k, hk⟩ := Mode.after_outside hb (.inl rfl)
  rw [behindStray?_append hbefore, hk, behindStray?, if_pos ⟨rfl, rfl⟩]

/-! ## What is left -/

theorem all_isInside_iff : s.all isInside = true ↔ '\x7d' ∉ s := by
  rw [List.all_eq_true]
  constructor
  · intro h hm
    simpa [isInside] using h _ hm
  · intro h c hc
    exact bne_iff_ne.2 fun he => h (he ▸ hc)

theorem dropWhile_isInside_cases (s : List Char) :
    ('\x7d' ∉ s ∧ s.dropWhile isInside = [])
      ∨ ∃ inside rest, '\x7d' ∉ inside ∧ s = inside ++ '\x7d' :: rest
          ∧ s.dropWhile isInside = '\x7d' :: rest := by
  have hall : '\x7d' ∉ s.takeWhile isInside := all_isInside_iff.1 List.all_takeWhile
  have hs : s.takeWhile isInside ++ s.dropWhile isInside = s := List.takeWhile_append_dropWhile
  cases hd : s.dropWhile isInside with
  | nil =>
    rw [hd, List.append_nil] at hs
    exact .inl ⟨hs ▸ hall, rfl⟩
  | cons c rest =>
    have hc : c = '\x7d' := by
      have := List.head?_dropWhile_not isInside s
      rw [hd] at this
      simpa [isInside] using this
    subst hc
    exact .inr ⟨_, rest, hall, by rw [← hd, hs], rfl⟩

/-- A placeholder that is taken out was seen by the scanner. -/
theorem behindStray?_of_stripFirst? (h : stripFirst? s = some t) :
    behindStray? (.outside 0) s = behindStray? (.outside 0) t := by
  unfold stripFirst? at h
  split at h
  · cases h
  · rename_i before after hb
    obtain ⟨rfl, hnone⟩ := breakAtOpening?_eq_some hb
    split at h
    · rename_i hbefore
      rcases dropWhile_isInside_cases after with ⟨-, hd⟩ | ⟨inside, rest, hinside, rfl, hd⟩
      · rw [hd] at h
        cases h
      · rw [hd] at h
        cases h
        simpa using behindStray?_placeholder hnone (all_isInside_iff.1 hbefore) hinside rest
    · cases h

/-- Where no placeholder is taken out, one is left only behind a closing brace that ends none. -/
theorem exists_behindStray?_of_stripFirst? (h : stripFirst? s = none) (hs : HasPlaceholder s) :
    ∃ rest, behindStray? (.outside 0) s = some rest ∧ HasPlaceholder rest := by
  obtain ⟨before, after, hb, hafter⟩ := hasPlaceholder_iff.1 hs
  obtain ⟨rfl, hnone⟩ := breakAtOpening?_eq_some hb
  simp only [stripFirst?, hb] at h
  by_cases hbefore : before.all isInside = true
  · rw [if_pos hbefore] at h
    rcases dropWhile_isInside_cases after with ⟨hno, -⟩ | ⟨inside, rest, -, -, hd⟩
    · exact absurd hafter hno
    · rw [hd] at h
      cases h
  · rcases dropWhile_isInside_cases before with ⟨hno, -⟩ | ⟨front, rest, hfront, rfl, -⟩
    · exact absurd (all_isInside_iff.2 hno) hbefore
    · refine ⟨rest ++ '$' :: '\x7b' :: after, ?_, ?_⟩
      · rw [List.append_assoc]
        exact behindStray?_close (breakAtOpening?_append_eq_none hnone) hfront _
      · obtain ⟨inside, behind, rfl⟩ := List.append_of_mem hafter
        exact ⟨rest, inside, behind, by simp⟩

theorem hasPlaceholder_stripAll_iff (s : List Char) : HasPlaceholder (stripAll s)
    ↔ ∃ rest, behindStray? (.outside 0) s = some rest ∧ HasPlaceholder rest := by
  fun_induction stripAll s with
  | case1 s h =>
    constructor
    · exact exists_behindStray?_of_stripFirst? h
    · rintro ⟨rest, hstray, hrest⟩
      exact hrest.of_suffix (suffix_of_behindStray? hstray)
  | case2 s t h _ ih => rw [ih, behindStray?_of_stripFirst? h]

/-- A placeholder is left in a string exactly where one stands in it behind a closing brace that
ends none. -/
theorem hasPlaceholder_strip_iff (s : String) : HasPlaceholder (strip s).toList
    ↔ ∃ rest, behindStray? (.outside 0) s.toList = some rest ∧ HasPlaceholder rest := by
  rw [strip, String.toList_ofList]
  exact hasPlaceholder_stripAll_iff s.toList

/-- The braces of an object keep a placeholder behind it. -/
theorem hasPlaceholder_strip_object :
    let s := "$In([\x7b\x7d,$\x7ba\x7d])"
    strip s = s ∧ HasPlaceholder (strip s).toList := by
  intro s
  have hs : strip s = s := by cbv
  rw [hs]
  exact ⟨rfl, "$In([\x7b\x7d,".toList, ['a'], "])".toList, by decide⟩

end QuerySql.Placeholder
