import Mathlib
import QuerySql.Proofs.Calls
import QuerySql.Proofs.Scanner

/-!
# Matching parentheses

An argument is matched where the scanner of argument lists meets no closing parenthesis that nothing
opened. A JSON text is always matched, since its parentheses stand in its strings
(`Json.matched_of_read`). A call is not asked whether its argument is matched, so an operator can
close its own parenthesis before its end (`Expression.heedsMatching_iff`).
-/

namespace QuerySql

namespace Pieces

def Mode.after (m : Mode) : List Char → Mode
  | [] => m
  | c :: rest => (m.next c rest).after rest

/-- Whether no parenthesis outside quotes is closed that was not opened. -/
def Matched (s : List Char) : Prop := Mode.after (.nested 0) s ≠ .trailing

instance (s : List Char) : Decidable (Matched s) := inferInstanceAs (Decidable (_ ≠ _))

/-- The scanner is at the same place before a text and before what is left of it. -/
def Passes (mode : Nat → Mode) (s rest : List Char) : Prop :=
  ∀ depth, Mode.after (mode depth) s = Mode.after (mode depth) rest

/-- Whether a character opens and closes nothing. -/
def isPlain (c : Char) : Bool := c != '(' && c != ')' && !isSpanQuote c

variable {mode : Nat → Mode} {s t u : List Char} {c : Char} {p : Char → Bool}

theorem isPlain_of_class (hp : ['(', ')', '\'', '"'].any p = false) (h : p c = true) :
    isPlain c = true := by
  have hne {d : Char} (hd : p d = false) : c ≠ d := by
    rintro rfl
    rw [h] at hd
    cases hd
  simp only [List.any_cons, List.any_nil, Bool.or_false, Bool.or_eq_false_iff] at hp
  obtain ⟨hopen, hclose, hsingle, hdouble⟩ := hp
  simp [isPlain, isSpanQuote, hne hopen, hne hclose, hne hsingle, hne hdouble]

theorem Passes.refl (s : List Char) : Passes mode s s := fun _ => rfl

theorem Passes.trans (h : Passes mode s t) (h' : Passes mode t u) : Passes mode s u :=
  fun depth => (h depth).trans (h' depth)

theorem Passes.plain (h : isPlain c = true) (s : List Char) : Passes .nested (c :: s) s := by
  intro depth
  simp only [isPlain, Bool.and_eq_true, bne_iff_ne, Bool.not_eq_true'] at h
  obtain ⟨⟨hopen, hclose⟩, hquote⟩ := h
  simp [Mode.after, Mode.next, hopen, hclose, hquote]

theorem Passes.append (h : s.all isPlain = true) (t : List Char) : Passes .nested (s ++ t) t := by
  induction s with
  | nil => exact .refl t
  | cons c s ih =>
    rw [List.all_cons, Bool.and_eq_true] at h
    exact (Passes.plain h.1 (s ++ t)).trans (ih h.2)

theorem Passes.dropWhile (h : ∀ c, p c = true → isPlain c = true) (s : List Char) :
    Passes .nested s (s.dropWhile p) := by
  have htaken : (s.takeWhile p).all isPlain = true :=
    List.all_eq_true.2 fun c hc => h c (List.all_eq_true.1 List.all_takeWhile c hc)
  have hp := Passes.append htaken (s.dropWhile p)
  rwa [List.takeWhile_append_dropWhile] at hp

end Pieces

/-! ## The parts of a JSON text -/

open Pieces

theorem isPlain_of_isDigit {c : Char} (h : c.isDigit = true) : isPlain c = true :=
  isPlain_of_class (by decide) h

namespace Numeral

variable {s ds rest : List Char}

theorem passes_scanDigits (h : scanDigits s = .ok (ds, rest)) : Passes .nested s rest := by
  unfold scanDigits at h
  split at h
  · cases h
  · cases h
  · cases h
    exact .dropWhile (fun c => isPlain_of_isDigit) s

theorem passes_scanFraction {fraction : Option (List Char)}
    (h : scanFraction s = .ok (fraction, rest)) : Passes .nested s rest := by
  rcases scanFraction_cases h with rfl | ⟨t, digits, rfl, hd⟩
  · exact .refl _
  · exact (Passes.plain (by decide) t).trans (passes_scanDigits hd)

theorem passes_scanSign (s : List Char) : Passes .nested s (scanSign s).2 := by
  unfold scanSign
  split
  · exact .plain (by decide) _
  · exact .plain (by decide) _
  · exact .refl s

theorem passes_scanMinus (s : List Char) : Passes .nested s (scanMinus s).2 := by
  unfold scanMinus
  split
  · exact .plain (by decide) _
  · exact .refl s

theorem passes_scanPower {power : Option (Bool × List Char)}
    (h : scanPower s = .ok (power, rest)) : Passes .nested s rest := by
  rcases scanPower_cases h with rfl | ⟨c, t, digits, hc, rfl, hd⟩
  · exact .refl _
  · have hplain : isPlain c = true := by rcases hc with rfl | rfl <;> decide
    exact (Passes.plain hplain t).trans ((passes_scanSign t).trans (passes_scanDigits hd))

theorem passes_scan {n : Numeral} (h : scan s = .ok (n, rest)) : Passes .nested s rest := by
  obtain ⟨u, v, hwhole, hfraction, hpower⟩ := exists_of_scan h
  have hdigits := passes_scanDigits (scanDigits_of_scanWhole hwhole)
  exact (passes_scanMinus s).trans (hdigits.trans
    ((passes_scanFraction hfraction).trans (passes_scanPower hpower)))

end Numeral

namespace Inside

/-- Inside double quotes the scanner goes on, and so does the search for their end. -/
structure PassesInside (s rest : List Char) : Prop where
  passes : Passes (.quoted '"') s rest
  dangles : dangles '"' s = dangles '"' rest

variable {s t rest : List Char}

theorem PassesInside.refl (s : List Char) : PassesInside s s := ⟨.refl s, rfl⟩

theorem PassesInside.trans (h : PassesInside s t) (h' : PassesInside t rest) :
    PassesInside s rest :=
  ⟨h.passes.trans h'.passes, h.dangles.trans h'.dangles⟩

theorem PassesInside.pair (c : Char) (s : List Char) : PassesInside ('\\' :: c :: s) s :=
  ⟨fun _ => rfl, rfl⟩

theorem PassesInside.char {c : Char} (hb : c ≠ '\\') (hq : c ≠ '"') (s : List Char) :
    PassesInside (c :: s) s := by
  constructor
  · intro depth
    simp [Mode.after, Mode.next, hb, hq]
  · rw [Pieces.dangles.eq_4 _ _ _ (fun h => absurd h hb) (fun _ _ h => absurd h hb)]
    simp [hq]

theorem PassesInside.append {ds : List Char} (h : ∀ d ∈ ds, d ≠ '\\' ∧ d ≠ '"') (s : List Char) :
    PassesInside (ds ++ s) s := by
  induction ds with
  | nil => exact .refl s
  | cons d ds ih =>
    obtain ⟨hb, hq⟩ := h d List.mem_cons_self
    exact (PassesInside.char hb hq (ds ++ s)).trans (ih fun e he => h e (List.mem_cons_of_mem d he))

theorem passes_hexFour {n : Nat} (h : hexFour s = .ok (n, rest)) : PassesInside s rest := by
  obtain ⟨digits, rfl, -, hdigits⟩ := hexFour_cases h
  refine .append (fun d hd => ?_) rest
  constructor <;> rintro rfl <;> cases hdigits _ hd

theorem passes_scanSecondHalf {first : Nat} {c : Except TextFault Char}
    (h : scanSecondHalf first s = .ok (c, rest)) : PassesInside s rest := by
  rcases scanSecondHalf_cases h with rfl | ⟨t, second, rfl, hx⟩
  · exact .refl _
  · exact (PassesInside.pair 'u' t).trans (passes_hexFour hx)

theorem passes_scanEscape {c : Except TextFault Char} (h : scanEscape t = .ok (c, rest)) :
    PassesInside ('\\' :: t) rest := by
  rcases scanEscape_cases h with ⟨d, rfl⟩ | ⟨u, v, n, rfl, hx, hrest⟩
  · exact .pair d rest
  · have hv := (PassesInside.pair 'u' u).trans (passes_hexFour hx)
    rcases hrest with rfl | hh
    · exact hv
    · exact hv.trans (passes_scanSecondHalf hh)

/-- The scanner leaves the quotes of a string where the string ends. -/
theorem after_scan (h : (scan s).rest = .ok rest) : dangles '"' s = false
    ∧ ∀ depth, Mode.after (.quoted '"' depth) s = Mode.after (.nested depth) rest := by
  fun_induction scan s with
  | case1 => cases h
  | case2 t =>
    cases h
    exact ⟨rfl, fun _ => rfl⟩
  | case3 t f hf => cases h
  | case4 t c r hr _ ih =>
    rw [rest_push] at h
    obtain ⟨hd, hm⟩ := ih h
    have hp := passes_scanEscape hr
    exact ⟨hp.dangles.trans hd, fun depth => (hp.passes depth).trans (hm depth)⟩
  | case5 c t _ _ hc => cases h
  | case6 c t hquote hback hc ih =>
    rw [rest_push] at h
    obtain ⟨hd, hm⟩ := ih h
    have hp : PassesInside (c :: t) t := .char hback hquote t
    exact ⟨hp.dangles.trans hd, fun depth => (hp.passes depth).trans (hm depth)⟩

end Inside

namespace Document

variable {c : Char} {s t word rest : List Char} {v : Json} {left : Option (List Char)}

theorem passes_dropSpace (s : List Char) : Passes .nested s (dropSpace s) := by
  refine .dropWhile (fun c hc => ?_) s
  simp only [isSpace, Bool.or_eq_true, beq_iff_eq] at hc
  rcases hc with ((rfl | rfl) | rfl) | rfl <;> decide

theorem length_of_dropSpace (h : dropSpace s = c :: t) : t.length < s.length := by
  have hs := length_dropSpace_le s
  rw [h] at hs
  exact hs

theorem passes_of_dropSpace (h : dropSpace s = c :: t) (hc : isPlain c = true) : Passes .nested s t :=
  (h ▸ passes_dropSpace s).trans (.plain hc t)

def Passed (s : List Char) (left : Option (List Char)) : Prop :=
  ∃ rest, left = some rest ∧ Passes .nested s rest

theorem Passed.of (h : Passes .nested s rest) : Passed s (some rest) := ⟨rest, rfl, h⟩

theorem Passed.behind (h : Passes .nested s t) (h' : Passed t left) : Passed s left := by
  obtain ⟨rest, hrest, hp⟩ := h'
  exact ⟨rest, hrest, h.trans hp⟩

theorem Passed.behindSpace (h : dropSpace s = t) (h' : Passed t left) : Passed s left :=
  .behind (h ▸ passes_dropSpace s) h'

theorem Passed.passes (h : Passed s left) (hleft : left = some rest) : Passes .nested s rest := by
  subst hleft
  obtain ⟨r, hr, hp⟩ := h
  cases hr
  exact hp

theorem passed_scanWordAs {d : Document} {hd : weight d = 1} (hc : isPlain c = true)
    (hw : word.all isPlain = true) (h : (scanWordAs d hd c word t).piece.read = .ok v) :
    Passed (c :: t) (scanWordAs d hd c word t).rest := by
  revert h
  unfold scanWordAs
  split
  · rename_i rest hs
    intro _
    have hword : Passes .nested t rest := eq_append_of_scanWord hs ▸ .append hw rest
    exact .of ((Passes.plain hc t).trans hword)
  · intro h
    cases h

theorem passes_string (h : (Inside.scan t).rest = .ok rest) : Passes .nested ('"' :: t) rest := by
  obtain ⟨hd, hm⟩ := Inside.after_scan h
  intro depth
  have hnext : Mode.next '"' t (.nested depth) = .quoted '"' depth := by
    simp [Mode.next, isSpanQuote, hd]
  rw [Mode.after, hnext, hm]

theorem passed_scanString (h : ∀ first reading passing,
    (scanString t).piece ≠ .broken first reading passing) :
    Passed ('"' :: t) (scanString t).rest := by
  revert h
  unfold scanString
  split
  · intro h
    exact absurd rfl (h _ _ _)
  · rename_i rest hs
    intro _
    exact .of (passes_string hs)

theorem passed_scanName {name : String} (h : memberName (scanName s).piece = .ok name) :
    Passed s (scanName s).rest := by
  revert h
  unfold scanName
  split
  · intro h
    refine passed_scanString fun _ _ _ hbroken => ?_
    rw [hbroken] at h
    cases h
  · intro h
    cases h

theorem passed_scanNumber (h : (scanNumber c t).piece.read = .ok v) :
    Passed (c :: t) (scanNumber c t).rest := by
  revert h
  unfold scanNumber
  split
  · intro h
    cases h
  · rename_i n rest hs
    intro _
    exact .of (Numeral.passes_scan hs)

mutual

/-- A document that is read leaves no parenthesis open and no quote, and closes none. -/
theorem passed_scan {level : Nat} {s : List Char} {v : Json}
    (h : (scan level s).piece.read = .ok v) : Passed s (scan level s).rest := by
  revert h
  rw [scan]
  split
  · intro h
    cases h
  · rename_i t hd
    exact fun h => .behindSpace hd (passed_scanWordAs (by decide) (by decide) h)
  · rename_i t hd
    exact fun h => .behindSpace hd (passed_scanWordAs (by decide) (by decide) h)
  · rename_i t hd
    exact fun h => .behindSpace hd (passed_scanWordAs (by decide) (by decide) h)
  · rename_i t hd
    intro h
    refine .behindSpace hd (passed_scanString fun _ _ _ hbroken => ?_)
    have hread : read (scanString t).piece = .ok v := h
    rw [hbroken] at hread
    cases hread
  · rename_i t hd
    have ht := length_dropSpace_le t
    have hts := length_of_dropSpace hd
    intro h
    refine .behind (passes_of_dropSpace hd (by decide)) ?_
    revert h
    dsimp only
    split
    · intro h
      cases (exists_of_read_array h).1
    · rename_i hclose
      exact fun _ => .of (passes_of_dropSpace hclose (by decide))
    · intro h
      obtain ⟨he, values, hv, -⟩ := exists_of_read_array h
      exact .behind (passes_dropSpace t) (passed_scanItems hv he)
  · rename_i t hd
    have ht := length_dropSpace_le t
    have hts := length_of_dropSpace hd
    intro h
    refine .behind (passes_of_dropSpace hd (by decide)) ?_
    revert h
    dsimp only
    split
    · intro h
      cases (exists_of_read_object h).1
    · rename_i hclose
      exact fun _ => .of (passes_of_dropSpace hclose (by decide))
    · intro h
      obtain ⟨he, entries, hv, -⟩ := exists_of_read_object h
      exact .behind (passes_dropSpace t) (passed_scanMembers hv he)
  · rename_i c t _ _ _ _ _ _ hd
    split
    · exact fun h => .behindSpace hd (passed_scanNumber h)
    · intro h
      cases h
termination_by (s.length, 0)

theorem passed_scanItems {level : Nat} {s : List Char} {values : List Json}
    (h : readItems (scanItems level s).piece.1 = .ok values)
    (he : (scanItems level s).piece.2 = none) : Passed s (scanItems level s).rest := by
  revert h he
  rw [scanItems]
  split
  · rename_i hrest
    intro h _
    obtain ⟨v, -, hv, -⟩ := exists_of_readItems_cons h
    obtain ⟨r, hr, -⟩ := passed_scan hv
    rw [hrest] at hr
    cases hr
  · rename_i behind hrest
    have hlt := (scan level s).shorter behind hrest
    dsimp only
    split
    · rename_i hclose
      intro h _
      obtain ⟨v, -, hv, -⟩ := exists_of_readItems_cons h
      have hfirst := (passed_scan hv).passes hrest
      exact .of (hfirst.trans (passes_of_dropSpace hclose (by decide)))
    · rename_i t hcomma
      have ht := length_dropSpace_le t
      have hd := length_of_dropSpace hcomma
      split
      · intro _ he
        cases he
      · intro _ he
        cases he
      · intro h he
        obtain ⟨v, others, hv, ho, -⟩ := exists_of_readItems_cons h
        have hfirst := (passed_scan hv).passes hrest
        have hbehind := hfirst.trans (passes_of_dropSpace hcomma (by decide))
        exact .behind (hbehind.trans (passes_dropSpace t)) (passed_scanItems ho he)
    · intro _ he
      cases he
    · intro _ he
      cases he
termination_by (s.length, 1)

theorem passed_scanMemberValue {level : Nat} {s : List Char} {v : Json}
    (h : (scanMemberValue level s).piece.read = .ok v) :
    Passed s (scanMemberValue level s).rest := by
  revert h
  rw [scanMemberValue]
  split
  · intro h
    cases h
  · rename_i t hd
    have hs := length_of_dropSpace hd
    exact fun h => .behind (passes_of_dropSpace hd (by decide)) (passed_scan h)
  · intro h
    cases h
termination_by (s.length, 0)

theorem passed_scanMembers {level : Nat} {s : List Char} {entries : List (String × Json)}
    (h : readMembers (scanMembers level s).piece.1 = .ok entries)
    (he : (scanMembers level s).piece.2 = none) : Passed s (scanMembers level s).rest := by
  revert h he
  rw [scanMembers]
  split
  · rename_i hrest
    intro h _
    obtain ⟨n, -, -, hn, -⟩ := exists_of_readMembers_cons h
    obtain ⟨r, hr, -⟩ := passed_scanName hn
    rw [hrest] at hr
    cases hr
  · rename_i n hname
    have hn := (scanName s).shorter n hname
    dsimp only
    split
    · rename_i hrest
      intro h _
      obtain ⟨-, v, -, -, hv, -⟩ := exists_of_readMembers_cons h
      obtain ⟨r, hr, -⟩ := passed_scanMemberValue hv
      rw [hrest] at hr
      cases hr
    · rename_i behind hvalue
      have hlt := (scanMemberValue level n).shorter behind hvalue
      split
      · rename_i hclose
        intro h _
        obtain ⟨m, v, -, hm, hv, -⟩ := exists_of_readMembers_cons h
        have hfirst := ((passed_scanName hm).passes hname).trans
          ((passed_scanMemberValue hv).passes hvalue)
        exact .of (hfirst.trans (passes_of_dropSpace hclose (by decide)))
      · rename_i t hcomma
        have ht := length_dropSpace_le t
        have hd := length_of_dropSpace hcomma
        split
        · intro _ he
          cases he
        · intro _ he
          cases he
        · intro h he
          obtain ⟨m, v, others, hm, hv, ho, -⟩ := exists_of_readMembers_cons h
          have hfirst := ((passed_scanName hm).passes hname).trans
            ((passed_scanMemberValue hv).passes hvalue)
          have hbehind := hfirst.trans (passes_of_dropSpace hcomma (by decide))
          exact .behind (hbehind.trans (passes_dropSpace t)) (passed_scanMembers ho he)
      · intro _ he
        cases he
      · intro _ he
        cases he
termination_by (s.length, 1)

end

end Document

/-- A text that is read as JSON is matched. -/
theorem Json.matched_of_read {s : List Char} {v : Json} (h : Json.read s = .ok v) : Matched s := by
  obtain ⟨hv, hend⟩ := exists_of_read h
  obtain ⟨rest, hrest, hp⟩ := Document.passed_scan hv
  rw [hrest, Option.getD_some] at hend
  have hafter := hp.trans (Document.passes_dropSpace rest) 0
  rw [hend] at hafter
  rw [Matched, hafter]
  decide

/-! ## Calls that close what they did not open -/

namespace Expression

/-- Whether the last parenthesis of a call has to be the one that closes the first: no operator
closes another before, and a text that does is a literal unless it is escaped. -/
structure HeedsMatching (s : List Char) : Prop where
  operator : (∃ op, read s = .operator op) → ∀ name args, Text.trim s = callText name args →
    '(' ∉ name.toList → Matched args
  literal : ∀ name args, Text.trim s = callText name args → '(' ∉ name.toList → ¬ Matched args →
    (∀ rest, Text.trim s ≠ '\\' :: rest) → read s = literalOf s

theorem eq_of_fits {s args args' : List Char} {name name' : String} {v : Json}
    (h : Text.trim s = callText name args) (hn : '(' ∉ name.toList)
    (h' : Text.trim s = callText name' args') (hf : Operator.Fits name' v) : args' = args := by
  have hn' := (head?_of_mem_names hf.known).2
  exact (callText_inj hn' hn (h'.symm.trans h)).2

/-- Only the name and the value of the argument decide whether a call is an operator, so matching is
heeded exactly where an argument that fits its name is matched, and wherever the argument is JSON. -/
theorem heedsMatching_iff (s : List Char) :
    (HeedsMatching s ↔ ∀ name args, Text.trim s = callText name args →
        Operator.Fits name (Argument.decode args) → Matched args)
      ∧ ∀ name args v, Text.trim s = callText name args → '(' ∉ name.toList →
          Json.read args = .ok v → HeedsMatching s := by
  have hiff : HeedsMatching s ↔ ∀ name args, Text.trim s = callText name args →
      Operator.Fits name (Argument.decode args) → Matched args := by
    constructor
    · intro h name args ht hf
      have hop := exists_operator_iff.2 ⟨name, args, ht, hf⟩
      exact h.operator hop name args ht (head?_of_mem_names hf.known).2
    · intro h
      constructor
      · intro hop name args ht hn
        obtain ⟨name', args', ht', hf⟩ := exists_operator_iff.1 hop
        rw [← eq_of_fits ht hn ht' hf]
        exact h name' args' ht' hf
      · intro name args ht hn hunmatched hplain
        refine read_eq_literalOf (fun op hop => hunmatched ?_) hplain
        obtain ⟨name', args', ht', hf⟩ := exists_operator_iff.1 ⟨op, hop⟩
        rw [← eq_of_fits ht hn ht' hf]
        exact h name' args' ht' hf
  refine ⟨hiff, fun name args v ht hn hv => hiff.2 fun name' args' ht' hf => ?_⟩
  rw [eq_of_fits ht hn ht' hf]
  exact Json.matched_of_read hv

/-- The argument of this pattern ends behind the last parenthesis, not at the first that closes. -/
theorem read_two_groups :
    let s := "$Like(a) OR (b)".toList
    read s = .operator (.test (.like (.string "a) OR (b"))) ∧ ¬ HeedsMatching s := by
  intro s
  have hs : Text.trim s = callText "$Like" "a) OR (b".toList := by decide
  have harg : Argument.decode "a) OR (b".toList = .string "a) OR (b" :=
    Argument.decode_of_plain (by decide) (by decide) (by decide) (by decide)
  have hshape : Shape.of (Text.trim s) = .call "$Like" "a) OR (b".toList := by
    rw [hs]
    exact shape_of_mem_names (by decide) _
  have hread : read s = .operator (.test (.like (.string "a) OR (b"))) := by
    refine read_call hshape (by decide) ?_
    rw [harg]
    rfl
  refine ⟨hread, fun h => ?_⟩
  have hmatched := h.operator ⟨_, hread⟩ _ _ hs (by decide)
  exact absurd hmatched (by decide)

end Expression

end QuerySql
