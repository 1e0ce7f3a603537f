import Mathlib
import QuerySql.Statement.Page

/-!
# Pages in integers

What a request asks for are numbers of 64 bits, and so is what a page holds. A page is nevertheless
what the integers say (`Page.ofRequest?_exact`): the only number that may lie beyond 64 bits is the
product of a page number and the rows of a page, and that one stops at the greatest number there is
(`Page.toInt_boundedProduct`), so it never turns negative. As long as it does not stop, the pages of
a request hold different rows, and each begins where the one before it ends.
-/

namespace QuerySql

def Request.rows (defaultLimit : UInt32) (r : Request) : Int :=
  match r.take, r.limit with
  | some n, _ => n.toInt
  | none, some n => n.toInt
  | none, none => defaultLimit.toNat

def Request.rowsBefore (r : Request) : Int :=
  match r.skip, r.offset with
  | some n, _ => n.toInt
  | none, some n => n.toInt
  | none, none => 0

namespace Page

/-- The places, counted from 0, of the rows on a page. -/
def places (p : Page) : Set Int := Set.Ico p.skip.toInt (p.skip.toInt + p.take.toInt)

variable {limit : UInt32} {r : Request}

/-! ## Numbers of 64 bits -/

theorem one_le_iff (n : Int64) : 1 ≤ n ↔ 1 ≤ n.toInt := by
  rw [Int64.le_iff_toInt_le, Int64.toInt_one]

theorem nonneg_iff (n : Int64) : 0 ≤ n ↔ 0 ≤ n.toInt := by
  rw [Int64.le_iff_toInt_le, Int64.toInt_zero]

/-- A product stays within 64 bits: it is that of the integers, as far as the range goes. -/
theorem toInt_boundedProduct (a b : Int64) :
    (boundedProduct a b).toInt = max (-2 ^ 63) (min (a.toInt * b.toInt) (2 ^ 63 - 1)) := by
  have hfits : a.toBitVec.smulOverflow b.toBitVec = false
      ↔ -2 ^ 63 ≤ a.toInt * b.toInt ∧ a.toInt * b.toInt ≤ 2 ^ 63 - 1 := by
    simp only [BitVec.smulOverflow, Int64.toInt_toBitVec]
    simp only [Bool.or_eq_false_iff, decide_eq_false_iff_not]
    omega
  have hpositive : decide (a < 0) = decide (b < 0) ↔ (a.toInt < 0 ↔ b.toInt < 0) := by
    rw [decide_eq_decide, Int64.lt_iff_toInt_lt, Int64.lt_iff_toInt_lt, Int64.toInt_zero]
  unfold boundedProduct
  cases hover : a.toBitVec.smulOverflow b.toBitVec with
  | false =>
    have hrange := hfits.1 hover
    have hmul : (a * b).toInt = a.toInt * b.toInt := by
      rw [Int64.toInt_mul, Int.bmod_eq_of_le] <;> omega
    rw [if_neg Bool.false_ne_true, hmul]
    omega
  | true =>
    have hrange : ¬ (-2 ^ 63 ≤ a.toInt * b.toInt ∧ a.toInt * b.toInt ≤ 2 ^ 63 - 1) := by
      rw [← hfits, hover]
      decide
    rw [if_pos rfl]
    -- The signs of the factors say on which side the product lies.
    by_cases hsigns : a.toInt < 0 ↔ b.toInt < 0
    · have hproduct : 0 ≤ a.toInt * b.toInt := by
        by_cases ha : a.toInt < 0
        · exact mul_nonneg_of_nonpos_of_nonpos (by omega) (by omega)
        · exact mul_nonneg (by omega) (by omega)
      rw [if_pos (hpositive.2 hsigns), Int64.toInt_maxValue]
      omega
    · have hproduct : a.toInt * b.toInt ≤ 0 := by
        by_cases ha : a.toInt < 0
        · exact mul_nonpos_of_nonpos_of_nonneg (by omega) (by omega)
        · exact mul_nonpos_of_nonneg_of_nonpos (by omega) (by omega)
      rw [if_neg (mt hpositive.1 hsigns), Int64.toInt_minValue]
      omega

theorem toInt_asked (limit : UInt32) (r : Request) : (asked limit r).toInt = r.rows limit := by
  have hlimit : (Int64.ofNat limit.toNat).toInt = limit.toNat :=
    Int64.toInt_ofNat_of_lt (by have := limit.toNat_lt; omega)
  unfold asked Request.rows
  cases r.take <;> cases r.limit <;> first | rfl | exact hlimit

theorem toInt_offset (r : Request) :
    (offset r).toInt = if 0 ≤ r.rowsBefore then r.rowsBefore else 0 := by
  have hfilter (n : Int64) : (((some n).filter fun n => 0 ≤ n).getD 0).toInt
      = if 0 ≤ n.toInt then n.toInt else 0 := by
    rw [Option.filter_some]
    simp only [decide_eq_true_iff, nonneg_iff]
    split <;> rfl
  unfold offset Request.rowsBefore
  cases r.skip with
  | some n => exact hfilter n
  | none =>
    cases r.offset with
    | some n => exact hfilter n
    | none => rfl

/-! ## Rows to skip -/

/-- A page number from one on skips its pages, as far as the numbers reach. -/
theorem toInt_skipped_of_page {take number : Int64} (htake : 1 ≤ take.toInt)
    (hpage : r.page = some number) (hnumber : 1 ≤ number.toInt) :
    (skipped take r).toInt = min (number.toInt * take.toInt) (2 ^ 63 - 1) := by
  have hproduct : 1 ≤ number.toInt * take.toInt := one_le_mul_of_one_le_of_one_le hnumber htake
  have hpages : pagesBefore take r = boundedProduct number take := by
    simp only [pagesBefore, hpage]
    exact if_pos ((one_le_iff number).2 hnumber)
  have hbounded : (boundedProduct number take).toInt
      = min (number.toInt * take.toInt) (2 ^ 63 - 1) := by
    rw [toInt_boundedProduct]
    omega
  have hpositive : 0 < boundedProduct number take := by
    rw [Int64.lt_iff_toInt_lt, hbounded, Int64.toInt_zero]
    omega
  rw [skipped, hpages, if_pos hpositive, hbounded]

theorem toInt_skipped_of_no_page (take : Int64)
    (hpage : ∀ number, r.page = some number → number.toInt < 1) :
    (skipped take r).toInt = if 0 ≤ r.rowsBefore then r.rowsBefore else 0 := by
  have hpages : pagesBefore take r = 0 := by
    unfold pagesBefore
    split
    · rename_i number hnumber
      refine if_neg fun h => ?_
      have hone := (one_le_iff number).1 h
      have := hpage number hnumber
      omega
    · rfl
  rw [skipped, hpages, if_neg (by decide), toInt_offset]

theorem skipped_nonneg {take : Int64} (htake : 1 ≤ take.toInt) (r : Request) :
    0 ≤ (skipped take r).toInt := by
  by_cases hpage : ∀ number, r.page = some number → number.toInt < 1
  · rw [toInt_skipped_of_no_page take hpage]
    split <;> omega
  · push Not at hpage
    obtain ⟨number, hnumber, hone⟩ := hpage
    have hproduct : 1 ≤ number.toInt * take.toInt := one_le_mul_of_one_le_of_one_le hone htake
    rw [toInt_skipped_of_page htake hnumber hone]
    omega

/-! ## The page of a request -/

theorem ofRequest?_eq_none_iff : ofRequest? limit r = none ↔ r.rows limit ≤ 0 := by
  have htake : 1 ≤ asked limit r ↔ 1 ≤ r.rows limit := by rw [one_le_iff, toInt_asked]
  have hskip (h : 1 ≤ r.rows limit) : 0 ≤ skipped (asked limit r) r :=
    (nonneg_iff _).2 (skipped_nonneg (by rwa [toInt_asked]) r)
  simp only [ofRequest?, ite_eq_right_iff, reduceCtorEq, imp_false, not_and]
  rw [htake]
  constructor
  · intro h
    by_contra hrows
    exact h (hskip (by omega)) (by omega)
  · intro h _
    omega

theorem exists_ofRequest? (h : 0 < r.rows limit) : ∃ page, ofRequest? limit r = some page
    ∧ page.take.toInt = r.rows limit ∧ page.skip = skipped (asked limit r) r := by
  cases hpage : ofRequest? limit r with
  | none =>
    have := ofRequest?_eq_none_iff.1 hpage
    omega
  | some page =>
    simp only [ofRequest?] at hpage
    split at hpage
    · cases hpage
      exact ⟨_, rfl, toInt_asked limit r, rfl⟩
    · cases hpage

theorem exists_ofRequest?_of_page {number : Int64} (hnumber : 1 ≤ number.toInt)
    (h : 0 < r.rows limit) : ∃ page, ofRequest? limit { r with page := some number } = some page
    ∧ page.take.toInt = r.rows limit
    ∧ page.skip.toInt = min (number.toInt * r.rows limit) (2 ^ 63 - 1) := by
  obtain ⟨page, hpage, htake, hskip⟩ := exists_ofRequest? (r := { r with page := some number }) h
  refine ⟨page, hpage, htake, ?_⟩
  rw [hskip, toInt_skipped_of_page (by rw [toInt_asked]; exact h) rfl hnumber, toInt_asked]
  rfl

/-- As long as the greatest number is not reached, the pages of a request are apart, and each begins
where the one before it ends. -/
theorem exists_pages_apart {p q : Int64} (h : 0 < r.rows limit) (hp : 1 ≤ p.toInt)
    (hpq : p.toInt < q.toInt) (hq : q.toInt * r.rows limit ≤ 2 ^ 63 - 1) :
    ∃ a b, ofRequest? limit { r with page := some p } = some a
      ∧ ofRequest? limit { r with page := some q } = some b ∧ Disjoint a.places b.places
      ∧ (q.toInt = p.toInt + 1 → a.skip.toInt + a.take.toInt = b.skip.toInt) := by
  obtain ⟨a, ha, hatake, haskip⟩ := exists_ofRequest?_of_page hp h
  obtain ⟨b, hb, -, hbskip⟩ := exists_ofRequest?_of_page (hp.trans hpq.le) h
  have hend : (p.toInt + 1) * r.rows limit = p.toInt * r.rows limit + r.rows limit := by ring
  -- The page behind `p` begins no later than page `q`.
  have hnext : (p.toInt + 1) * r.rows limit ≤ q.toInt * r.rows limit :=
    mul_le_mul_of_nonneg_right (by omega) h.le
  rw [min_eq_left (by omega)] at haskip hbskip
  refine ⟨a, b, ha, hb, Set.disjoint_left.2 fun place hplace hplace' => ?_, fun hq => ?_⟩
  · have hbefore : place < a.skip.toInt + a.take.toInt := hplace.2
    have hbehind : b.skip.toInt ≤ place := hplace'.1
    omega
  · rw [haskip, hbskip, hatake, hq, hend]

/-- A page is what the integers say. There is one where a request asks for rows; it takes as many as
are asked for, and skips the pages up to the number of the request, up to the greatest number there
is, or else what the request skips by itself. As long as the greatest number is not reached, the
pages of a request hold different rows, and each begins where the one before it ends. -/
theorem ofRequest?_exact (limit : UInt32) (r : Request) :
    let take := r.rows limit
    let page? (number : Int64) := ofRequest? limit { r with page := some number }
    (ofRequest? limit r = none ↔ take ≤ 0)
    ∧ (0 < take → ∃ page, ofRequest? limit r = some page ∧ page.take.toInt = take
      ∧ 0 ≤ page.skip.toInt ∧ page.skip.toInt ≤ 2 ^ 63 - 1
      ∧ (∀ number, r.page = some number → 1 ≤ number.toInt →
        page.skip.toInt = min (number.toInt * take) (2 ^ 63 - 1))
      ∧ ((∀ number, r.page = some number → number.toInt < 1) →
        page.skip.toInt = if 0 ≤ r.rowsBefore then r.rowsBefore else 0))
    ∧ ∀ p q : Int64, 0 < take → 1 ≤ p.toInt → p.toInt < q.toInt → q.toInt * take ≤ 2 ^ 63 - 1 →
      ∃ a b, page? p = some a ∧ page? q = some b ∧ Disjoint a.places b.places
        ∧ (q.toInt = p.toInt + 1 → a.skip.toInt + a.take.toInt = b.skip.toInt) := by
  intro take page?
  refine ⟨ofRequest?_eq_none_iff, fun htake => ?_, fun p q => exists_pages_apart⟩
  obtain ⟨page, hpage, hrows, hskip⟩ := exists_ofRequest? htake
  have hasked : 1 ≤ (asked limit r).toInt := by rw [toInt_asked]; exact htake
  refine ⟨page, hpage, hrows, ?_, ?_, fun number hnumber hone => ?_, fun hno => ?_⟩
  · rw [hskip]
    exact skipped_nonneg hasked r
  · have := page.skip.toInt_lt
    omega
  · rw [hskip, toInt_skipped_of_page hasked hnumber hone, toInt_asked]
  · rw [hskip, toInt_skipped_of_no_page _ hno]

/-- Page 2 of three rows a page lies behind page 1, and a page number that leads beyond the numbers
skips as many rows as there can be. -/
theorem ofRequest?_exact_three :
    let r : Request := { take := some 3, limit := some (-1), skip := some 5 }
    let far : Request := { r with page := some 4611686018427387904 }
    r.rows 20 = 3 ∧ 2 * r.rows 20 ≤ 2 ^ 63 - 1
      ∧ (∃ a b, ofRequest? 20 { r with page := some 1 } = some a
        ∧ ofRequest? 20 { r with page := some 2 } = some b ∧ Disjoint a.places b.places
        ∧ a.skip.toInt + a.take.toInt = b.skip.toInt)
      ∧ ∃ page, ofRequest? 20 far = some page ∧ page.skip.toInt = 2 ^ 63 - 1 := by
  intro r far
  have hrows : r.rows 20 = 3 := by decide
  have hfar : far.rows 20 = 3 := by decide
  have hbound : 2 * r.rows 20 ≤ 2 ^ 63 - 1 := by
    rw [hrows]
    decide
  obtain ⟨-, -, hpages⟩ := ofRequest?_exact 20 r
  obtain ⟨a, b, ha, hb, hapart, hnext⟩ :=
    hpages 1 2 (by rw [hrows]; decide) (by decide) (by decide) hbound
  obtain ⟨-, hpage, -⟩ := ofRequest?_exact 20 far
  obtain ⟨page, hpage, -, -, -, hskip, -⟩ := hpage (by rw [hfar]; decide)
  refine ⟨hrows, hbound, ⟨a, b, ha, hb, hapart, hnext (by decide)⟩, page, hpage, ?_⟩
  rw [hskip 4611686018427387904 rfl (by decide), hfar]
  decide

end Page

end QuerySql
