import Mathlib
import QuerySql.Proofs.WrittenLists
import QuerySql.Settings

/-!
# Limits in texts

A text overrides the limit where it is a numeral below `2 ^ 32` with blanks around it
(`Settings.override_iff_numeral`). The numeral is read in 32 bits, and reading gives up as soon as a
digit leads beyond them. That is as good as reading it whole: a value never falls when digits follow
(`le_ofDigitChars`), so a numeral with such a beginning is too large, and zeros in front, however
many, lead nowhere.
-/

namespace QuerySql

/-! ## Trimmed texts -/

namespace Text

/-- A text and what stands between the blanks at its ends. -/
structure Trimmed (raw core : List Char) : Prop where
  padded : ∃ before behind, raw = before ++ core ++ behind
    ∧ (∀ c ∈ before, isBlank c = true) ∧ ∀ c ∈ behind, isBlank c = true
  head : ∀ c ∈ core.head?, isBlank c = false
  last : ∀ c ∈ core.getLast?, isBlank c = false

variable {s raw core : List Char}

theorem head_dropWhile : ∀ c ∈ (s.dropWhile isBlank).head?, isBlank c = false := by
  intro c hc
  have hhead := List.head?_dropWhile_not isBlank s
  rw [Option.mem_def.1 hc] at hhead
  exact hhead

theorem trimmed_trim (s : List Char) : Trimmed s (trim s) := by
  have hfront : s.takeWhile isBlank ++ trimStart s = s := List.takeWhile_append_dropWhile
  have hback : trim s ++ ((trimStart s).reverse.takeWhile isBlank).reverse = trimStart s := by
    rw [trim, trimEnd, ← List.reverse_append, List.takeWhile_append_dropWhile,
      List.reverse_reverse]
  have hblank {u : List Char} : ∀ c ∈ u.takeWhile isBlank, isBlank c = true :=
    List.all_eq_true.1 List.all_takeWhile
  refine ⟨⟨s.takeWhile isBlank, ((trimStart s).reverse.takeWhile isBlank).reverse, ?_, hblank,
    fun c hc => hblank c (List.mem_reverse.1 hc)⟩, fun c hc => ?_, fun c hc => ?_⟩
  · rw [List.append_assoc, hback, hfront]
  · have hstart : c ∈ (trimStart s).head? := by
      rw [← hback]
      exact List.mem_head?_append_of_mem_head? hc
    exact head_dropWhile c hstart
  · rw [trim, trimEnd, List.getLast?_reverse] at hc
    exact head_dropWhile c hc

/-- There is one trimmed text, and trimming finds it. -/
theorem trimmed_iff : Trimmed raw core ↔ trim raw = core := by
  constructor
  · rintro ⟨⟨before, behind, rfl, hbefore, hbehind⟩, hhead, hlast⟩
    by_cases hne : core = []
    · subst hne
      have hblank : ∀ c ∈ before ++ [] ++ behind, isBlank c = true := by
        simpa [or_imp, forall_and] using ⟨hbefore, hbehind⟩
      rw [trim, trimStart, List.dropWhile_eq_nil_iff.2 hblank]
      rfl
    · exact Bare.trim_padded ⟨hne, hhead, hlast⟩ hbefore hbehind
  · rintro rfl
    exact trimmed_trim raw

end Text

namespace Settings

variable {n m : UInt32} {c : Char} {ds t : List Char} {value : Nat}

/-! ## Digit by digit -/

theorem toNat_digit (h : c.isDigit = true) :
    (UInt32.ofNat (Decimal.digitValue c)).toNat = Decimal.digitValue c := by
  have hrange : 48 ≤ c.toNat ∧ c.toNat ≤ 57 := Char.isDigit_iff_toNat.1 h
  refine UInt32.toNat_ofNat_of_lt' ?_
  simp only [Decimal.digitValue, UInt32.size, Char.reduceToNat]
  omega

theorem withDigit?_eq_some_iff : withDigit? n c = some m
    ↔ c.isDigit = true ∧ m.toNat = 10 * n.toNat + Decimal.digitValue c := by
  have hm := m.toNat_lt
  unfold withDigit?
  cases hdigit : c.isDigit with
  | false => simp
  | true =>
    have hvalue := toNat_digit hdigit
    generalize UInt32.ofNat (Decimal.digitValue c) = digit at hvalue ⊢
    rw [if_neg (by decide)]
    -- Either operation may leave the 32 bits; neither result wraps around unnoticed.
    by_cases hmul : n.toBitVec.umulOverflow 10 = true
    · have hlarge : 2 ^ 32 ≤ n.toNat * 10 := of_decide_eq_true hmul
      rw [if_pos hmul]
      simp only [reduceCtorEq, true_and, false_iff]
      omega
    · have htimes : (n * 10).toNat = n.toNat * 10 := BitVec.toNat_mul_of_not_umulOverflow hmul
      rw [if_neg hmul]
      by_cases hadd : (n * 10).toBitVec.uaddOverflow digit.toBitVec = true
      · have hlarge : 2 ^ 32 ≤ (n * 10).toNat + digit.toNat := of_decide_eq_true hadd
        rw [if_pos hadd]
        simp only [reduceCtorEq, true_and, false_iff]
        omega
      · have hplus : (n * 10 + digit).toNat = (n * 10).toNat + digit.toNat :=
          BitVec.toNat_add_of_not_uaddOverflow hadd
        rw [if_neg hadd, Option.some_inj, ← UInt32.toNat_inj]
        simp only [true_and]
        omega

theorem le_ofDigitChars (ds : List Char) (value : Nat) : value ≤ Nat.ofDigitChars 10 ds value := by
  have hpow : 0 < 10 ^ ds.length := Nat.pow_pos (by decide)
  calc value ≤ 10 ^ ds.length * value := Nat.le_mul_of_pos_left value hpow
    _ ≤ 10 ^ ds.length * value + Nat.ofDigitChars 10 ds 0 := Nat.le_add_right _ _
    _ = Nat.ofDigitChars 10 ds value := Nat.ofDigitChars_eq_ofDigitChars_zero.symm

/-- Characters are read behind a number where all are digits and the value of the whole is below
`2 ^ 32`. -/
theorem foldlM_withDigit?_eq_some_iff : ds.foldlM withDigit? n = some m
    ↔ (∀ c ∈ ds, c.isDigit = true) ∧ m.toNat = Nat.ofDigitChars 10 ds n.toNat := by
  induction ds generalizing n with
  | nil =>
    rw [List.foldlM_nil, Option.pure_def, Option.some_inj, eq_comm, ← UInt32.toNat_inj]
    simp [Nat.ofDigitChars_nil]
  | cons c ds ih =>
    rw [List.foldlM_cons, Option.bind_eq_bind, Option.bind_eq_some_iff, List.forall_mem_cons,
      Nat.ofDigitChars_cons]
    constructor
    · rintro ⟨k, hk, hrest⟩
      obtain ⟨hc, hvalue⟩ := withDigit?_eq_some_iff.1 hk
      obtain ⟨hds, hm⟩ := ih.1 hrest
      exact ⟨⟨hc, hds⟩, by rw [hm, hvalue]; rfl⟩
    · rintro ⟨⟨hc, hds⟩, hm⟩
      -- The value of the whole bounds that of its beginning, so this digit is not refused.
      have hlt : 10 * n.toNat + Decimal.digitValue c < 2 ^ 32 := by
        have hle := le_ofDigitChars ds (10 * n.toNat + (c.toNat - '0'.toNat))
        have hbound := m.toNat_lt
        rw [← hm] at hle
        exact Nat.lt_of_le_of_lt hle hbound
      have hk := UInt32.toNat_ofNat_of_lt' hlt
      exact ⟨_, withDigit?_eq_some_iff.2 ⟨hc, hk⟩, ih.2 ⟨hds, by rw [hk]; exact hm⟩⟩

/-! ## Numerals -/

/-- The numerals of a value: digits, any zeros among them, behind a plus sign or none. -/
inductive Numeral : List Char → Nat → Prop where
  | unsigned {ds : List Char} (hne : ds ≠ []) (hds : ∀ c ∈ ds, c.isDigit = true) :
    Numeral ds (Nat.ofDigitChars 10 ds 0)
  | plus {ds : List Char} (hne : ds ≠ []) (hds : ∀ c ∈ ds, c.isDigit = true) :
    Numeral ('+' :: ds) (Nat.ofDigitChars 10 ds 0)

/-- What keeps a text without blanks around it from giving a limit: it has no digits, a character
that does not belong there, or too large a value. -/
inductive Flawed : List Char → Prop where
  | empty : Flawed []
  | sign : Flawed ['+']
  | first {c : Char} {t : List Char} (hplus : c ≠ '+') (hc : c.isDigit = false) : Flawed (c :: t)
  | later {c d : Char} {t : List Char} (mem : d ∈ t) (hd : d.isDigit = false) : Flawed (c :: t)
  | large {t : List Char} {value : Nat} (numeral : Numeral t value) (le : 2 ^ 32 ≤ value) :
    Flawed t

theorem digitsOf_cases (t : List Char) : digitsOf t = t ∨ t = '+' :: digitsOf t := by
  unfold digitsOf
  split
  · exact .inr rfl
  · exact .inl rfl

theorem digitsOf_of_ne (h : c ≠ '+') : digitsOf (c :: t) = c :: t :=
  (digitsOf_cases (c :: t)).resolve_right fun he => h (List.cons.inj he).1

theorem digitsOf_eq_self (h : ∀ c ∈ ds, c.isDigit = true) : digitsOf ds = ds := by
  cases ds with
  | nil => rfl
  | cons c ds =>
    refine digitsOf_of_ne ?_
    rintro rfl
    exact absurd (h '+' List.mem_cons_self) (by decide)

theorem numeral_iff : Numeral t value ↔ digitsOf t ≠ [] ∧ (∀ c ∈ digitsOf t, c.isDigit = true)
    ∧ value = Nat.ofDigitChars 10 (digitsOf t) 0 := by
  constructor
  · rintro (⟨hne, hds⟩ | ⟨hne, hds⟩)
    · rw [digitsOf_eq_self hds]
      exact ⟨hne, hds, rfl⟩
    · exact ⟨hne, hds, rfl⟩
  · rintro ⟨hne, hds, rfl⟩
    rcases digitsOf_cases t with h | h
    · rw [h] at hne hds ⊢
      exact .unsigned hne hds
    · have hplus := Numeral.plus hne hds
      rwa [← h] at hplus

theorem numeral?_eq_some_iff : numeral? t = some n ↔ Numeral t n.toNat := by
  rw [numeral_iff]
  simp only [numeral?, List.isEmpty_iff]
  by_cases hne : digitsOf t = []
  · simp [hne]
  · rw [if_neg hne, foldlM_withDigit?_eq_some_iff]
    simp [hne]

theorem mem_digitsOf {d : Char} (h : d ∈ t) : d ∈ digitsOf (c :: t) := by
  rcases digitsOf_cases (c :: t) with he | he
  · rw [he]
    exact List.mem_cons_of_mem c h
  · rwa [← (List.cons.inj he).2]

theorem Flawed.le (h : Flawed t) (hvalue : Numeral t value) : 2 ^ 32 ≤ value := by
  obtain ⟨hne, hds, rfl⟩ := numeral_iff.1 hvalue
  cases h with
  | empty => exact absurd rfl hne
  | sign => exact absurd rfl hne
  | @first c t hplus hc =>
    rw [digitsOf_of_ne hplus] at hds
    exact absurd (hds c List.mem_cons_self) (Bool.eq_false_iff.1 hc)
  | @later c d t mem hd => exact absurd (hds d (mem_digitsOf mem)) (Bool.eq_false_iff.1 hd)
  | large numeral le => rwa [(numeral_iff.1 numeral).2.2] at le

theorem exists_numeral (h : ¬ Flawed t) : ∃ value, Numeral t value := by
  cases t with
  | nil => exact absurd .empty h
  | cons c t =>
    have ht : ∀ d ∈ t, d.isDigit = true := by
      intro d hmem
      by_contra hd
      exact h (.later hmem (Bool.eq_false_iff.2 hd))
    by_cases hplus : c = '+'
    · subst hplus
      have hne : t ≠ [] := by
        rintro rfl
        exact h .sign
      exact ⟨_, .plus hne ht⟩
    · have hc : c.isDigit = true := by
        by_contra hc
        exact h (.first hplus (Bool.eq_false_iff.2 hc))
      exact ⟨_, .unsigned (List.cons_ne_nil c t) (List.forall_mem_cons.2 ⟨hc, ht⟩)⟩

/-- A text is not read where it is flawed. -/
theorem numeral?_eq_none_iff : numeral? t = none ↔ Flawed t := by
  constructor
  · intro h
    by_contra hflaw
    obtain ⟨value, hvalue⟩ := exists_numeral hflaw
    have hlt : value < 2 ^ 32 := Nat.not_le.1 fun le => hflaw (.large hvalue le)
    rw [← UInt32.toNat_ofNat_of_lt' hlt] at hvalue
    rw [numeral?_eq_some_iff.2 hvalue] at h
    cases h
  · intro h
    refine Option.eq_none_iff_forall_ne_some.2 fun n hn => ?_
    exact Nat.not_le.2 n.toNat_lt (h.le (numeral?_eq_some_iff.1 hn))

theorem numeral_zeros_append (zeros value : Nat) :
    Numeral (List.replicate zeros '0' ++ Nat.toDigits 10 value) value := by
  have hne : List.replicate zeros '0' ++ Nat.toDigits 10 value ≠ [] :=
    List.append_ne_nil_of_right_ne_nil _ Nat.toDigits_ne_nil
  have hds : ∀ c ∈ List.replicate zeros '0' ++ Nat.toDigits 10 value, c.isDigit = true := by
    intro c hc
    rcases List.mem_append.1 hc with hzero | hdigit
    · rw [List.eq_of_mem_replicate hzero]
      decide
    · exact Nat.isDigit_of_mem_toDigits (by decide) (by decide) hdigit
  have hvalue : Nat.ofDigitChars 10 (List.replicate zeros '0' ++ Nat.toDigits 10 value) 0
      = value := by
    rw [Nat.ofDigitChars_append, Nat.ofDigitChars_replicate_zero, Nat.mul_zero,
      Nat.ofDigitChars_ten_toDigits]
  have hnumeral := Numeral.unsigned hne hds
  rwa [hvalue] at hnumeral

theorem Numeral.trimmed (h : Numeral t value) : Text.Trimmed t t := by
  have hblank : ∀ c ∈ t, Text.isBlank c = false := by
    cases h with
    | unsigned _ hds => exact fun c hc => Items.not_isBlank_of_isDigit (hds c hc)
    | plus _ hds =>
      refine List.forall_mem_cons.2 ⟨by decide, fun c hc => ?_⟩
      exact Items.not_isBlank_of_isDigit (hds c hc)
  exact ⟨⟨[], [], by simp, List.forall_mem_nil _, List.forall_mem_nil _⟩,
    fun c hc => hblank c (List.mem_of_mem_head? hc), fun c hc => hblank c (List.mem_of_getLast? hc)⟩

/-! ## Overriding -/

theorem override_eq_ok_iff {s s' : Settings} {raw : String} : s.override (some raw) = .ok s'
    ↔ ∃ n, numeral? (Text.trim raw.toList) = some n ∧ s' = { s with defaultLimit := n } := by
  simp only [override]
  cases numeral? (Text.trim raw.toList) <;> simp [eq_comm]

theorem override_eq_error_iff {s : Settings} {raw : String} {fault : Fault} :
    s.override (some raw) = .error fault
      ↔ numeral? (Text.trim raw.toList) = none ∧ fault = .notANumber raw := by
  simp only [override]
  cases numeral? (Text.trim raw.toList) <;> simp [eq_comm]

/-- A text gives the limit that it writes. It does so where it is, without the blanks around it, a
numeral of a value below `2 ^ 32`, and only the limit changes then; whatever else it is, it is
refused for a flaw, with the whole text in the message. So every limit can be given, with as many
zeros in front as one likes. -/
theorem override_iff_numeral (s : Settings) :
    (∀ raw s', s.override (some raw) = .ok s' ↔
      ∃ core value, Text.Trimmed raw.toList core ∧ Numeral core value ∧ value < 2 ^ 32
        ∧ s' = { s with defaultLimit := UInt32.ofNat value })
    ∧ (∀ raw fault, s.override (some raw) = .error fault ↔
      (∃ core, Text.Trimmed raw.toList core ∧ Flawed core) ∧ fault = .notANumber raw)
    ∧ (∀ raw, (Fault.notANumber raw).message? = some ("Configuration error: "
      ++ "RELQUERY_DEFAULT_LIMIT" ++ " must be a non-negative integer, got '" ++ raw ++ "'"))
    ∧ ∀ (n : UInt32) (zeros : Nat),
      s.override (some (String.ofList (List.replicate zeros '0' ++ Nat.toDigits 10 n.toNat)))
        = .ok { s with defaultLimit := n } := by
  refine ⟨fun raw s' => ?_, fun raw fault => ?_, fun raw => rfl, fun n zeros => ?_⟩
  · rw [override_eq_ok_iff]
    constructor
    · rintro ⟨n, hn, rfl⟩
      exact ⟨_, n.toNat, Text.trimmed_trim _, numeral?_eq_some_iff.1 hn, n.toNat_lt, by simp⟩
    · rintro ⟨core, value, hcore, hvalue, hlt, rfl⟩
      rw [Text.trimmed_iff.1 hcore]
      rw [← UInt32.toNat_ofNat_of_lt' hlt] at hvalue
      exact ⟨_, numeral?_eq_some_iff.2 hvalue, rfl⟩
  · rw [override_eq_error_iff, numeral?_eq_none_iff]
    constructor
    · rintro ⟨hflaw, rfl⟩
      exact ⟨⟨_, Text.trimmed_trim _, hflaw⟩, rfl⟩
    · rintro ⟨⟨core, hcore, hflaw⟩, rfl⟩
      rw [Text.trimmed_iff.1 hcore]
      exact ⟨hflaw, rfl⟩
  · have hnumeral := numeral_zeros_append zeros n.toNat
    rw [override_eq_ok_iff, String.toList_ofList, Text.trimmed_iff.1 hnumeral.trimmed]
    exact ⟨n, numeral?_eq_some_iff.2 hnumeral, rfl⟩

example : ({} : Settings).override (some "\u3000+0000000000042\n") = .ok ⟨42⟩ := by cbv

example : ({} : Settings).override (some "-0") = .error (.notANumber "-0") := by cbv

example : ({} : Settings).override (some " 4294967296")
    = .error (.notANumber " 4294967296") := by cbv

end Settings

end QuerySql
