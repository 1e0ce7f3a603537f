import Mathlib
import QuerySql.Json.Writer
import QuerySql.Proofs.Matching

/-!
# Written argument lists

A list of arguments is read back as it was written (`Items.split_list`): integers, the words of
JSON, text between quotes and operator calls, with blanks around them as one likes, commas between
them and brackets around all. The commas inside an item do not cut it, since its quotes are closed
and its parentheses are balanced: the scanner keeps such a text whole (`Pieces.Kept`).
-/

namespace QuerySql

namespace Pieces

/-- What may stand between two quotes: behind a backslash any character, and no such quote
elsewhere. -/
inductive Enclosed (quote : Char) : List Char → Prop where
  | nil : Enclosed quote []
  | escape (c : Char) {s : List Char} (hs : Enclosed quote s) : Enclosed quote ('\\' :: c :: s)
  | char {c : Char} {s : List Char} (hb : c ≠ '\\') (hq : c ≠ quote) (hs : Enclosed quote s) :
    Enclosed quote (c :: s)

/-- Closed quotes and balanced parentheses around other text. -/
inductive Balanced : List Char → Prop where
  | nil : Balanced []
  | char {c : Char} {s : List Char} (hc : isPlain c = true) (hs : Balanced s) : Balanced (c :: s)
  | span {quote : Char} {inside s : List Char} (hq : isSpanQuote quote = true)
    (hi : Enclosed quote inside) (hs : Balanced s) : Balanced (quote :: inside ++ [quote] ++ s)
  | group {inner s : List Char} (hi : Balanced inner) (hs : Balanced s) :
    Balanced ('(' :: inner ++ [')'] ++ s)

/-- The scanner takes the text into one piece and is inside as many parentheses behind it as before
it. -/
def Kept (depth : Nat) (s : List Char) : Prop :=
  ∀ rest, scanFrom (.nested depth) (s ++ rest)
    = (scanFrom (.nested depth) rest).modifyHead (s ++ ·)

variable {depth : Nat} {c quote : Char} {s t inside : List Char} {ps : List (List Char)}

theorem Kept.nil : Kept depth [] := by
  intro rest
  show _ = List.modifyHead id _
  rw [List.modifyHead_id, List.nil_append, id]

theorem Kept.append (hs : Kept depth s) (ht : Kept depth t) : Kept depth (s ++ t) := by
  intro rest
  rw [List.append_assoc, hs, ht, List.modifyHead_modifyHead]
  simp only [Function.comp_def, List.append_assoc]

theorem Kept.char (hc : isPlain c = true) (hcut : depth = 0 → c ≠ ',') : Kept depth [c] := by
  intro rest
  simp only [isPlain, Bool.and_eq_true, bne_iff_ne, Bool.not_eq_true'] at hc
  obtain ⟨⟨hopen, hclose⟩, hquote⟩ := hc
  exact scanFrom_plain hopen hclose (by simp [hquote]) hcut

theorem Kept.of_forall (h : ∀ c ∈ s, isPlain c = true ∧ c ≠ ',') : Kept depth s := by
  induction s with
  | nil => exact .nil
  | cons c s ih =>
    obtain ⟨hc, hcut⟩ := h c List.mem_cons_self
    have hs := ih fun d hd => h d (List.mem_cons_of_mem c hd)
    exact (Kept.char hc fun _ => hcut).append hs

theorem Kept.of_class {p : Char → Bool} (hp : [',', '(', ')', '\'', '"'].any p = false)
    (h : ∀ c ∈ s, p c = true) : Kept depth s := by
  obtain ⟨hcomma, hothers⟩ := Bool.or_eq_false_iff.1 hp
  refine .of_forall fun c hc => ⟨isPlain_of_class hothers (h c hc), ?_⟩
  rintro rfl
  rw [h ',' hc] at hcomma
  cases hcomma

theorem cutQuote?_enclosed (hq : quote ≠ '\\') (hi : Enclosed quote inside) (rest : List Char) :
    ∃ k, cutQuote? quote (inside ++ quote :: rest) = some k ∧ k.taken = inside ++ [quote]
      ∧ k.rest = rest := by
  induction hi with
  | nil => exact ⟨_, cutQuote?_self hq rest, rfl, rfl⟩
  | @escape c s _ ih =>
    obtain ⟨k, hk, htaken, hrest⟩ := ih
    refine ⟨(k.cons c).cons '\\', ?_, by simp [htaken], hrest⟩
    simp [cutQuote?, hk]
  | @char c s hb hc _ ih =>
    obtain ⟨k, hk, htaken, hrest⟩ := ih
    refine ⟨k.cons c, ?_, by simp [htaken], hrest⟩
    exact (cutQuote?_of_ne hb hc _).trans (congrArg (Option.map fun l => l.cons c) hk)

theorem Kept.span (hq : isSpanQuote quote = true) (hi : Enclosed quote inside) :
    Kept depth (quote :: inside ++ [quote]) := by
  intro rest
  have hback : quote ≠ '\\' := by
    rintro rfl
    cases hq
  obtain ⟨k, hk, htaken, hrest⟩ := cutQuote?_enclosed hback hi rest
  have hcut : cutSpan quote (inside ++ quote :: rest) = k := by rw [cutSpan, hk]; rfl
  have hs : quote :: inside ++ [quote] ++ rest = quote :: (inside ++ quote :: rest) := by simp
  rw [hs, scanFrom_span hq, hcut, htaken, hrest]
  rfl

theorem Kept.group (hs : Kept (depth + 1) s) : Kept depth ('(' :: s ++ [')']) := by
  intro rest
  have happ : '(' :: s ++ [')'] ++ rest = '(' :: (s ++ ')' :: rest) := by simp
  rw [happ, scanFrom_open, hs, scanFrom_close, List.modifyHead_modifyHead,
    List.modifyHead_modifyHead]
  simp [Function.comp_def]

/-- Inside parentheses commas do not cut. -/
theorem Balanced.kept (h : Balanced s) (depth : Nat) : Kept (depth + 1) s := by
  induction h generalizing depth with
  | nil => exact .nil
  | char hc _ ih =>
    exact (Kept.char hc fun h => absurd h (Nat.succ_ne_zero depth)).append (ih depth)
  | span hq hi _ ih => exact (Kept.span hq hi).append (ih depth)
  | group _ _ ihinner ih => exact (Kept.group (ihinner (depth + 1))).append (ih depth)

/-- The scanner cuts between texts that it keeps whole, and nowhere else. -/
theorem scan_intercalate (hne : ps ≠ []) (h : ∀ p ∈ ps, Kept 0 p) :
    scan (List.intercalate [','] ps) = ps := by
  induction ps with
  | nil => exact absurd rfl hne
  | cons p ps ih =>
    have hp := h p List.mem_cons_self
    cases ps with
    | nil =>
      have hend := hp []
      rw [List.append_nil] at hend
      rw [List.intercalate_singleton, scan, hend, scanFrom]
      simp
    | cons q qs =>
      rw [List.intercalate_cons_cons, List.append_assoc, scan, hp, List.singleton_append, ← scan,
        scan_comma, ih (List.cons_ne_nil q qs) fun r hr => h r (List.mem_cons_of_mem p hr)]
      simp

end Pieces

namespace Text

structure Bare (s : List Char) : Prop where
  ne_nil : s ≠ []
  head : ∀ c ∈ s.head?, isBlank c = false
  last : ∀ c ∈ s.getLast?, isBlank c = false

variable {before s after : List Char} {c d : Char}

theorem Bare.of_forall (hne : s ≠ []) (h : ∀ c ∈ s, isBlank c = false) : Bare s :=
  ⟨hne, fun c hc => h c (List.mem_of_mem_head? hc), fun c hc => h c (List.mem_of_getLast? hc)⟩

theorem Bare.between (hc : isBlank c = false) (hd : isBlank d = false) (s : List Char) :
    Bare (c :: s ++ [d]) := by
  refine ⟨List.cons_ne_nil _ _, fun e he => ?_, fun e he => ?_⟩
  · cases he
    exact hc
  · rw [List.getLast?_concat] at he
    cases he
    exact hd

theorem Bare.trim_padded (h : Bare s) (hb : ∀ c ∈ before, isBlank c = true)
    (ha : ∀ c ∈ after, isBlank c = true) : trim (before ++ s ++ after) = s := by
  have hstart : trimStart (before ++ s ++ after) = s ++ after := by
    obtain ⟨c, rest, rfl⟩ := List.exists_cons_of_ne_nil h.ne_nil
    rw [List.append_assoc, trimStart, List.dropWhile_append_of_pos hb]
    exact List.dropWhile_cons_of_neg (by simp [h.head c rfl])
  obtain ⟨front, d, rfl⟩ := (List.eq_nil_or_concat' s).resolve_left h.ne_nil
  have hd : isBlank d = false := h.last d List.getLast?_concat
  rw [trim, hstart, trimEnd, List.reverse_append, List.dropWhile_append_of_pos (by simpa using ha),
    List.reverse_append, List.reverse_singleton, List.singleton_append,
    List.dropWhile_cons_of_neg (by simp [hd])]
  simp

end Text

namespace Items

open Pieces

/-- The text of an integer: digits, with a sign in front or none. -/
inductive IntegerText : List Char → Int → Prop where
  | unsigned {ds : List Char} (hne : ds ≠ []) (hds : ds.all Char.isDigit = true) :
    IntegerText ds (Nat.ofDigitChars 10 ds 0)
  | plus {ds : List Char} (hne : ds ≠ []) (hds : ds.all Char.isDigit = true) :
    IntegerText ('+' :: ds) (Nat.ofDigitChars 10 ds 0)
  | minus {ds : List Char} (hne : ds ≠ []) (hds : ds.all Char.isDigit = true) :
    IntegerText ('-' :: ds) (-Nat.ofDigitChars 10 ds 0)

/-- A text that stands for a value in an argument list. -/
inductive Writes : List Char → Json → Prop where
  | integer {t : List Char} {n : Int} (ht : IntegerText t n) (least : leastInteger ≤ n)
    (greatest : n ≤ greatestInteger) : Writes t (.number (.int n))
  | yes : Writes ['t', 'r', 'u', 'e'] (.bool true)
  | no : Writes ['f', 'a', 'l', 's', 'e'] (.bool false)
  | null : Writes ['n', 'u', 'l', 'l'] .null
  | text {quote : Char} {s : List Char} (hq : isSpanQuote quote = true)
    (hs : ∀ c ∈ s, c ≠ quote ∧ c ≠ '\\') :
    Writes (quote :: s ++ [quote]) (.string (String.ofList s))
  | call {name body : List Char} (hn : ∀ c ∈ name, c ≠ ',' ∧ isPlain c = true)
    (hb : Balanced body) : Writes ('$' :: name ++ '(' :: body ++ [')'])
      (.string (String.ofList ('$' :: name ++ '(' :: body ++ [')'])))

inductive WritesPadded : List Char → Json → Prop where
  | intro {before t after : List Char} {v : Json} (hb : ∀ c ∈ before, Text.isBlank c = true)
    (ht : Writes t v) (ha : ∀ c ∈ after, Text.isBlank c = true) :
    WritesPadded (before ++ t ++ after) v

variable {t p : List Char} {v : Json} {n : Int} {ps : List (List Char)} {vs : List Json}

theorem integerText_intText (n : Int) : IntegerText (Number.intText n) n := by
  have hdigits (k : Nat) : (Number.digits k).all Char.isDigit = true :=
    List.all_eq_true.2 fun c hc => Nat.isDigit_of_mem_toDigits (by decide) (by decide) hc
  have hvalue (k : Nat) : Nat.ofDigitChars 10 (Number.digits k) 0 = k :=
    Nat.ofDigitChars_ten_toDigits
  have hne (k : Nat) : Number.digits k ≠ [] := Nat.toDigits_ne_nil
  unfold Number.intText
  split
  · have hm := IntegerText.minus (hne n.natAbs) (hdigits n.natAbs)
    have hn : -(n.natAbs : Int) = n := by omega
    rwa [hvalue, hn] at hm
  · have hu := IntegerText.unsigned (hne n.natAbs) (hdigits n.natAbs)
    have hn : (n.natAbs : Int) = n := by omega
    rwa [hvalue, hn] at hu

/-! ## Items for the scanner -/

theorem enclosed_of_forall {quote : Char} {s : List Char} (h : ∀ c ∈ s, c ≠ quote ∧ c ≠ '\\') :
    Enclosed quote s := by
  induction s with
  | nil => exact .nil
  | cons c s ih =>
    obtain ⟨hq, hb⟩ := h c List.mem_cons_self
    exact .char hb hq (ih fun d hd => h d (List.mem_cons_of_mem c hd))

theorem IntegerText.kept (h : IntegerText t n) : Kept 0 t := by
  have hdigits {ds : List Char} (hds : ds.all Char.isDigit = true) : Kept 0 ds :=
    .of_class (by decide) (List.all_eq_true.1 hds)
  cases h with
  | unsigned _ hds => exact hdigits hds
  | plus _ hds | minus _ hds => exact (Kept.char (by decide) (by decide)).append (hdigits hds)

theorem Writes.kept (h : Writes t v) : Kept 0 t := by
  cases h with
  | integer ht => exact ht.kept
  | yes | no | null => exact .of_forall (by simp [isPlain, isSpanQuote])
  | text hq hs => exact .span hq (enclosed_of_forall hs)
  | @call name body hn hb =>
    have hname : Kept 0 ('$' :: name) := .of_forall fun c hc => by
      rcases List.mem_cons.1 hc with rfl | hc
      · decide
      · exact (hn c hc).symm
    have happ : '$' :: name ++ '(' :: body ++ [')'] = '$' :: name ++ ('(' :: body ++ [')']) := by
      simp
    rw [happ]
    exact hname.append (.group (hb.kept 0))

theorem WritesPadded.kept (h : WritesPadded p v) : Kept 0 p := by
  cases h with
  | intro hb ht ha =>
    have hblank {s : List Char} (hs : ∀ c ∈ s, Text.isBlank c = true) : Kept 0 s :=
      .of_class (by decide) hs
    exact ((hblank hb).append ht.kept).append (hblank ha)

/-! ## Items one by one -/

theorem not_isBlank_of_isDigit {c : Char} (h : c.isDigit = true) : Text.isBlank c = false := by
  have hrange : 48 ≤ c.toNat ∧ c.toNat ≤ 57 := Char.isDigit_iff_toNat.1 h
  simp only [Text.isBlank, Bool.or_eq_false_iff, Bool.and_eq_false_iff, decide_eq_false_iff_not,
    beq_eq_false_iff_ne]
  omega

theorem takeSign_of_digits {ds : List Char} (h : ds.all Char.isDigit = true) :
    takeSign ds = (false, ds) := by
  unfold takeSign
  split
  · cases h
  · cases h
  · rfl

theorem exists_of_integerText (h : IntegerText t n) : ∃ negative ds, takeSign t = (negative, ds)
    ∧ ds ≠ [] ∧ ds.all Char.isDigit = true
    ∧ n = if negative then -(Decimal.ofDigits ds : Int) else Decimal.ofDigits ds := by
  have hvalue (ds : List Char) : Nat.ofDigitChars 10 ds 0 = Decimal.ofDigits ds :=
    Nat.ofDigitChars_eq_foldl
  cases h with
  | unsigned hne hds => exact ⟨false, t, takeSign_of_digits hds, hne, hds, by simp [hvalue]⟩
  | @plus ds hne hds => exact ⟨false, ds, rfl, hne, hds, by simp [hvalue]⟩
  | @minus ds hne hds => exact ⟨true, ds, rfl, hne, hds, by simp [hvalue]⟩

theorem number?_of_integerText (h : IntegerText t n) (least : leastInteger ≤ n)
    (greatest : n ≤ greatestInteger) : number? t = some (.int n) := by
  obtain ⟨negative, ds, hsign, hne, hds, hn⟩ := exists_of_integerText h
  have htake : ds.takeWhile Char.isDigit = ds :=
    List.takeWhile_eq_self_iff.2 fun c hc => List.all_eq_true.1 hds c hc
  have hdrop : ds.dropWhile Char.isDigit = [] :=
    List.dropWhile_eq_nil_iff.2 fun c hc => List.all_eq_true.1 hds c hc
  have hnumeral : Numeral.ofText? t = some ⟨negative, ds, none, none⟩ := by
    simp [Numeral.ofText?, hsign, htake, hdrop, takeFraction, wholePower?, hne]
  simp [number?, hnumeral, Numeral.integer?, ← hn, least, greatest]

/-- What cannot be a call nor a word of JSON is a number or text. -/
theorem coerce_of_head (h : ∀ c ∈ t.head?, c ∉ ['$', 't', 'f', 'n']) : coerce t
    = ((number? t).map Json.number).getD (.string (String.ofList ((Text.unquote? t).getD t))) := by
  have hcall : isCall t = false := by
    have hne : t.head? ≠ some '$' := fun he => h '$' he (by decide)
    simp [isCall, hne]
  have hword {c : Char} {w : List Char} (hc : c ∈ ['$', 't', 'f', 'n']) : t ≠ c :: w := by
    rintro rfl
    exact h c rfl hc
  unfold coerce
  rw [if_neg (by simp [hcall]), if_neg (hword (by decide)), if_neg (hword (by decide)),
    if_neg (hword (by decide))]
  cases number? t <;> rfl

theorem IntegerText.head_not_mem (h : IntegerText t n) :
    ∀ c ∈ t.head?, c ∉ ['$', 't', 'f', 'n'] := by
  cases h with
  | unsigned hne hds =>
    intro c hc hmem
    have hd : c.isDigit = true := List.all_eq_true.1 hds c (List.mem_of_mem_head? hc)
    simp only [List.mem_cons, List.not_mem_nil, or_false] at hmem
    rcases hmem with rfl | rfl | rfl | rfl <;> cases hd
  | plus | minus => exact fun c hc => by cases hc; decide

theorem Writes.coerce_eq (h : Writes t v) : coerce t = v := by
  cases h with
  | integer ht least greatest =>
    rw [coerce_of_head ht.head_not_mem, number?_of_integerText ht least greatest]
    rfl
  | yes | no | null => rfl
  | @text quote s hq hs =>
    simp only [isSpanQuote, Bool.or_eq_true, beq_iff_eq] at hq
    have hhead : ∀ c ∈ (quote :: s ++ [quote]).head?, c ∉ ['$', 't', 'f', 'n'] := by
      rintro c ⟨⟩
      rcases hq with rfl | rfl <;> decide
    have hnumber : number? (quote :: s ++ [quote]) = none := by
      rcases hq with rfl | rfl <;> rfl
    have hquote : Text.unquote? (quote :: s ++ [quote]) = some s := by
      rcases hq with rfl | rfl <;> simp [Text.unquote?, Text.isQuote]
    rw [coerce_of_head hhead, hnumber, hquote]
    rfl
  | @call name body hn hb =>
    have hlast : ('$' :: name ++ '(' :: body ++ [')']).getLast? = some ')' := List.getLast?_concat
    have hcall : isCall ('$' :: name ++ '(' :: body ++ [')']) = true := by
      rw [isCall, hlast]
      simp
    rw [coerce, if_pos hcall]

theorem IntegerText.bare (h : IntegerText t n) : Text.Bare t := by
  have hdigits {ds : List Char} (hds : ds.all Char.isDigit = true) :
      ∀ c ∈ ds, Text.isBlank c = false :=
    fun c hc => not_isBlank_of_isDigit (List.all_eq_true.1 hds c hc)
  cases h with
  | unsigned hne hds => exact .of_forall hne (hdigits hds)
  | plus hne hds | minus hne hds =>
    exact .of_forall (List.cons_ne_nil _ _) (List.forall_mem_cons.2 ⟨by decide, hdigits hds⟩)

theorem Writes.bare (h : Writes t v) : Text.Bare t := by
  cases h with
  | integer ht => exact ht.bare
  | yes | no | null => exact .of_forall (by decide) (by simp [Text.isBlank])
  | @text quote s hq hs =>
    simp only [isSpanQuote, Bool.or_eq_true, beq_iff_eq] at hq
    rcases hq with rfl | rfl <;> exact .between (by decide) (by decide) s
  | call hn hb => exact .between (by decide) (by decide) _

theorem WritesPadded.trim (h : WritesPadded p v) : Writes (Text.trim p) v := by
  cases h with
  | intro hb ht ha =>
    rw [ht.bare.trim_padded hb ha]
    exact ht

/-! ## Lists -/

theorem dropBlankLast_eq_self (h : ∀ p ∈ ps, Text.trim p ≠ []) : dropBlankLast ps = ps := by
  rcases List.eq_nil_or_concat' ps with rfl | ⟨front, last, rfl⟩
  · rfl
  · rw [dropBlankLast_append, if_neg (h last (by simp))]

theorem dropBrackets_brackets (s : List Char) : dropBrackets ('[' :: s ++ [']']) = s := by
  simp [dropBrackets]

theorem pieces_intercalate (h : ∀ p ∈ ps, Pieces.Kept 0 p ∧ Text.trim p ≠ []) :
    dropBlankLast (Pieces.pieces (List.intercalate [','] ps)) = ps := by
  rw [Pieces.pieces_eq_scan]
  cases ps with
  | nil => rfl
  | cons p ps =>
    rw [Pieces.scan_intercalate (List.cons_ne_nil p ps) fun q hq => (h q hq).1]
    exact dropBlankLast_eq_self fun q hq => (h q hq).2

/-- A written list is read back, item by item. -/
theorem split_list (h : List.Forall₂ WritesPadded ps vs) :
    split ('[' :: List.intercalate [','] ps ++ [']']) = vs := by
  have hboth : List.Forall₂ (fun p v => (Kept 0 p ∧ Text.trim p ≠ []) ∧ WritesPadded p v) ps vs :=
    h.imp fun p v hv => ⟨⟨hv.kept, hv.trim.bare.ne_nil⟩, hv⟩
  obtain ⟨hsafe, -⟩ := (List.forall₂_and_left ps vs).1 hboth
  rw [split, dropBrackets_brackets, pieces_intercalate hsafe]
  have heach : List.Forall₂ Eq (ps.map fun p => coerce (Text.trim p)) vs :=
    List.forall₂_map_left_iff.2 (h.imp fun p v hv => hv.trim.coerce_eq)
  exact List.forall₂_eq_eq_eq ▸ heach

/-- Commas, parentheses and the other quote inside an item are part of it. -/
theorem split_list_mixed :
    let ps := [" \"a,('b\" ".toList, "-5".toList, "$In(1,')')".toList, " null".toList]
    let vs := [.string "a,('b", .number (.int (-5)), .string "$In(1,')')", .null]
    List.Forall₂ WritesPadded ps vs ∧ split "[ \"a,('b\" ,-5,$In(1,')'), null]".toList = vs := by
  intro ps vs
  have hblank : ∀ c ∈ [' '], Text.isBlank c = true := by simp [Text.isBlank]
  have hnone : ∀ c ∈ ([] : List Char), Text.isBlank c = true := List.forall_mem_nil _
  have htext : Writes "\"a,('b\"".toList (.string "a,('b") :=
    @Writes.text '"' "a,('b".toList (by decide) (by simp)
  have hdigits : Number.intText (-5) = "-5".toList := by decide
  have hinteger : Writes "-5".toList (.number (.int (-5))) :=
    .integer (hdigits ▸ integerText_intText (-5)) (by decide) (by decide)
  have hcall : Writes "$In(1,')')".toList (.string "$In(1,')')") := by
    have hspan : Balanced "')'".toList :=
      @Balanced.span '\'' [')'] [] (by decide) (.char (by decide) (by decide) .nil) .nil
    have hbody : Balanced "1,')'".toList := .char (by decide) (.char (by decide) hspan)
    exact @Writes.call ['I', 'n'] _ (by simp [isPlain, isSpanQuote]) hbody
  have h : List.Forall₂ WritesPadded ps vs :=
    .cons (.intro hblank htext hblank) (.cons (.intro hnone hinteger hnone)
      (.cons (.intro hnone hcall hnone) (.cons (.intro hblank .null hnone) .nil)))
  exact ⟨h, split_list h⟩

end Items

end QuerySql
