import QuerySql.Operator.Pieces

/-!
# A grammar of argument lists

The pieces of an argument list in the form of a grammar that is read by trial. A recognizer takes a
part from the front of a text or refuses it; alternatives are tried in order, and a refusal falls
through to the next. Two things could go wrong in this form that cannot in a cut: a repetition is
refused as a whole when a round of it takes nothing, and a list may end before its text does.
Neither happens: the grammar accepts every text to its end, with the pieces that `pieces` cuts
(`arguments_eq_pieces`).
-/

namespace QuerySql.Grammar

open Pieces

/-- What is taken from the front of a text, if anything is accepted there. -/
abbrev Recognizer := (s : List Char) → Option (Cut s)

def exactly (c : Char) : Recognizer
  | [] => none
  | d :: rest => if d = c then some ((Cut.none rest).cons d) else none

def anyChar : Recognizer
  | [] => none
  | d :: rest => some ((Cut.none rest).cons d)

/-- The longest part, but not an empty one, without the characters given. -/
def noneOf (stops : List Char) : Recognizer := fun s =>
  let part := s.takeWhile fun c => !stops.elem c
  if part.isEmpty then none
  else some ⟨part, s.dropWhile fun c => !stops.elem c, List.takeWhile_append_dropWhile⟩

def everything : Recognizer := fun s => some (Cut.all s)

def optional (r : Recognizer) : Recognizer := fun s => some ((r s).getD (Cut.none s))

def either (r r' : Recognizer) : Recognizer := fun s => (r s).or (r' s)

def followed (r r' : Recognizer) : Recognizer := fun s =>
  (r s).bind fun k => (r' k.rest).map k.append

/-- A recognizer over and over until it refuses. A round that takes nothing refuses it all. -/
def repeated (s : List Char) (r : (t : List Char) → t.length ≤ s.length → Option (Cut t)) :
    Option (Cut s) :=
  match r s (Nat.le_refl _) with
  | none => some (Cut.none s)
  | some k =>
    if h : k.rest.length < s.length then
      (repeated k.rest fun t ht => r t (Nat.le_trans ht (Nat.le_of_lt h))).map k.append
    else none
termination_by s.length

/-- Ordinary parts and parts behind a control character until neither is there. It refuses a text
that ends in the control character, and one that it cannot begin with. -/
def escaped (ordinary : Recognizer) (control : Char) (escapable : Recognizer) (begun : Bool)
    (s : List Char) : Option (Cut s) :=
  match s with
  | [] => some (Cut.none [])
  | c :: rest =>
    match ordinary (c :: rest) with
    | some k =>
      if _h : k.rest.length < rest.length + 1 then
        (escaped ordinary control escapable true k.rest).map k.append
      else some (Cut.none (c :: rest))
    | none =>
      if c = control then
        (escapable rest).bind fun k =>
          ((escaped ordinary control escapable true k.rest).map k.append).map fun l => l.cons c
      else if begun then some (Cut.none (c :: rest))
      else none
termination_by s.length
decreasing_by
  · exact _h
  · exact Nat.lt_succ_of_le k.length_rest_le

/-- A span between two quotes of one kind; the second may be missing. -/
def span (quote : Char) : Recognizer :=
  followed (exactly quote)
    (followed (optional (escaped (noneOf ['\\', quote]) '\\' anyChar false))
      (optional (exactly quote)))

def quoted : Recognizer := either (span '\'') (span '"')

/-- Parentheses around spans, further parentheses and other text; the second may be missing. -/
def group (s : List Char) : Option (Cut s) :=
  match s with
  | [] => none
  | c :: rest =>
    if c = '(' then
      (repeated rest fun t _ =>
        ((quoted t).or (group t)).or (noneOf ['\'', '"', '(', ')'] t)).bind fun inner =>
          ((optional (exactly ')') inner.rest).map inner.append).map fun k => k.cons c
    else none
termination_by s.length

/-- One argument. A closing parenthesis that nothing opened takes all behind it. -/
def argument : Recognizer := fun s =>
  repeated s fun t _ =>
    (((quoted t).or (group t)).or (noneOf [',', '\'', '"', '(', ')'] t)).or
      (followed (exactly ')') everything t)

/-- Items behind separators, and the text that is left over. A separator that takes nothing refuses
it all. -/
def separatedItems (separator item : Recognizer) (s : List Char) :
    Option (List (List Char) × List Char) :=
  match separator s with
  | none => some ([], s)
  | some k =>
    if _h : k.rest.length < s.length then
      match item k.rest with
      | none => some ([], s)
      | some l =>
        (separatedItems separator item l.rest).map fun (items, rest) => (l.taken :: items, rest)
    else none
termination_by s.length
decreasing_by exact Nat.lt_of_le_of_lt l.length_rest_le _h

def separated (separator item : Recognizer) (s : List Char) :
    Option (List (List Char) × List Char) :=
  match item s with
  | none => some ([], s)
  | some k =>
    (separatedItems separator item k.rest).map fun (items, rest) => (k.taken :: items, rest)

def arguments (s : List Char) : Option (List (List Char) × List Char) :=
  separated (exactly ',') argument s

/-! ## Single recognizers -/

variable {c quote : Char} {stops : List Char} {s rest : List Char}

theorem eq_of_rest {k l : Cut s} (h : k.rest = l.rest) : k = l := by
  obtain ⟨taken, left, hk⟩ := k
  obtain ⟨taken', left', hl⟩ := l
  cases h
  cases List.append_cancel_right (hk.trans hl.symm)
  rfl

theorem exactly_self : exactly c (c :: rest) = some ((Cut.none rest).cons c) := if_pos rfl

theorem exactly_ne (h : c ≠ quote) : exactly quote (c :: rest) = none := if_neg h

theorem noneOf_nil : noneOf stops [] = none := rfl

theorem noneOf_stop (h : c ∈ stops) : noneOf stops (c :: rest) = none := by
  simp [noneOf, h]

theorem noneOf_start (h : c ∉ stops) (rest : List Char) : ∃ k, noneOf stops (c :: rest) = some k
    ∧ k.rest = rest.dropWhile fun d => !stops.elem d := by
  simp [noneOf, h]

theorem dropWhile_of_skip {α : Type} (f : List Char → α)
    (skip : ∀ {c}, c ∉ stops → ∀ rest, f (c :: rest) = f rest) (s : List Char) :
    f (s.dropWhile fun c => !stops.elem c) = f s := by
  induction s with
  | nil => rfl
  | cons c rest ih =>
    by_cases hc : c ∈ stops
    · rw [List.dropWhile_cons_of_neg (by simp [hc])]
    · rw [List.dropWhile_cons_of_pos (by simp [hc]), ih, skip hc]

theorem quoted_nil : quoted [] = none := rfl

theorem quoted_ne (h : ¬ isSpanQuote c = true) : quoted (c :: rest) = none := by
  simp only [isSpanQuote, Bool.or_eq_true, beq_iff_eq, not_or] at h
  simp [quoted, either, span, followed, exactly_ne, h]

theorem group_nil : group [] = none := by rw [group]

theorem group_ne (h : c ≠ '(') : group (c :: rest) = none := by rw [group, if_neg h]

def many (r : Recognizer) (s : List Char) : Option (Cut s) := repeated s fun t _ => r t

/-- A part against a cut: where the part is refused, `finish` leaves what the cut leaves; where it
is accepted, some of the text is taken, and the text behind it is cut at the same place. -/
def Follows (part : Recognizer) (cut : (s : List Char) → Cut s) (finish : List Char → List Char)
    (s : List Char) : Prop :=
  (part s = none ∧ finish s = (cut s).rest)
    ∨ ∃ k, part s = some k ∧ k.rest.length < s.length ∧ (cut k.rest).rest = (cut s).rest

/-- Part by part a repetition goes where the cut goes, and so is never refused. -/
theorem many_of_follows {part : Recognizer} {cut : (s : List Char) → Cut s}
    {finish : List Char → List Char} (s : List Char)
    (h : ∀ t, t.length ≤ s.length → Follows part cut finish t) :
    ∃ k, many part s = some k ∧ finish k.rest = (cut s).rest := by
  rcases h s (Nat.le_refl _) with ⟨hr, hf⟩ | ⟨k, hk, hlt, hcut⟩
  · exact ⟨Cut.none s, by rw [many, repeated, hr], hf⟩
  · obtain ⟨l, hl, hf⟩ :=
      many_of_follows k.rest fun t ht => h t (Nat.le_trans ht (Nat.le_of_lt hlt))
    refine ⟨k.append l, ?_, hf.trans hcut⟩
    rw [many, repeated, hk]
    simp only [hlt, dite_true]
    rw [← many, hl, Option.map_some]
termination_by s.length

/-- The text that is left when a character is taken from it, if it is there. -/
def without (c : Char) (s : List Char) : List Char := ((exactly c s).getD (Cut.none s)).rest

theorem without_self : without c (c :: rest) = rest := by rw [without, exactly_self]; rfl

theorem without_ne {d : Char} (h : d ≠ c) : without c (d :: rest) = d :: rest := by
  rw [without, exactly_ne h]; rfl

/-! ## Quotes -/

theorem cutQuote?_ordinary (hc : c ∉ ['\\', quote]) (rest : List Char) :
    (cutQuote? quote (c :: rest)).map Cut.rest = (cutQuote? quote rest).map Cut.rest := by
  obtain ⟨hb, hq⟩ : c ≠ '\\' ∧ c ≠ quote := by simpa using hc
  rw [cutQuote?_of_ne hb hq, Option.map_map]
  rfl

theorem length_dropWhile_lt (p : Char → Bool) (rest : List Char) :
    (rest.dropWhile p).length < rest.length + 1 :=
  Nat.lt_succ_of_le (List.dropWhile_sublist p).length_le

/-- The parts of a span end where the cut does, its quote apart. -/
theorem without_escaped (hq : quote ≠ '\\') (begun : Bool) (s : List Char)
    (hs : begun = true ∨ s.head? ≠ some quote) :
    (escaped (noneOf ['\\', quote]) '\\' anyChar begun s).map (fun k => without quote k.rest)
      = (cutQuote? quote s).map Cut.rest := by
  match s with
  | [] => rw [escaped]; rfl
  | c :: rest =>
    rw [escaped]
    by_cases hb : c = '\\'
    · subst hb
      rw [noneOf_stop List.mem_cons_self]
      cases rest with
      | nil => rfl
      | cons d rest =>
        have ih := without_escaped hq true rest (.inl rfl)
        simp only [if_pos, anyChar, Option.bind_some, cutQuote?, Option.map_map]
        exact ih
    by_cases hc : c = quote
    · subst hc
      have hbegun : begun = true := by simpa using hs
      rw [noneOf_stop (by simp), cutQuote?_self hb]
      simp [hb, hbegun, without_self]
    · have hmem : c ∉ ['\\', quote] := by simp [hb, hc]
      obtain ⟨k, hk, hr⟩ := noneOf_start hmem rest
      have hlt : k.rest.length < rest.length + 1 := hr ▸ length_dropWhile_lt _ rest
      have ih := without_escaped hq true k.rest (.inl rfl)
      rw [cutQuote?_ordinary hmem, ← dropWhile_of_skip (fun t => (cutQuote? quote t).map Cut.rest)
        cutQuote?_ordinary, ← hr, ← ih, hk]
      simp only [hlt, dite_true, Option.map_map]
      rfl
termination_by s.length

theorem span_self (hq : quote ≠ '\\') (rest : List Char) :
    span quote (quote :: rest) = some ((cutSpan quote rest).cons quote) := by
  have h : ∃ k, span quote (quote :: rest) = some k
      ∧ k.rest = without quote
          ((escaped (noneOf ['\\', quote]) '\\' anyChar false rest).getD (Cut.none rest)).rest := by
    rw [span, followed, exactly_self]
    exact ⟨_, rfl, rfl⟩
  obtain ⟨k, hk, hr⟩ := h
  rw [hk]
  refine congrArg some (eq_of_rest ?_)
  rw [hr, Cut.rest_cons, cutSpan]
  by_cases hs : rest.head? = some quote
  · obtain ⟨tail, rfl⟩ := List.head?_eq_some_iff.1 hs
    have he : escaped (noneOf ['\\', quote]) '\\' anyChar false (quote :: tail) = none := by
      rw [escaped, noneOf_stop (by simp)]
      simp [hq]
    rw [he, cutQuote?_self hq]
    exact without_self
  · have hw := without_escaped hq false rest (.inr hs)
    cases hcut : cutQuote? quote rest with
    | none =>
      rw [hcut, Option.map_none, Option.map_eq_none_iff] at hw
      rw [hw]
      cases rest with
      | nil => rfl
      | cons d rest => exact without_ne fun h => hs (h ▸ rfl)
    | some l =>
      rw [hcut] at hw
      obtain ⟨m, hm, hl⟩ := Option.map_eq_some_iff.1 hw
      rw [hm]
      exact hl

theorem quoted_span (h : isSpanQuote c = true) (rest : List Char) :
    quoted (c :: rest) = some ((cutSpan c rest).cons c) := by
  simp only [isSpanQuote, Bool.or_eq_true, beq_iff_eq] at h
  rcases h with rfl | rfl
  · rw [quoted, either, span_self (by decide)]
    rfl
  · rw [quoted, either, span_self (by decide), span, followed, exactly_ne (by decide)]
    rfl

/-! ## Parentheses -/

theorem cutGroup_nil : (cutGroup []).rest = [] := by rw [cutGroup, Cut.rest_none]

theorem cutGroup_close (rest : List Char) : (cutGroup (')' :: rest)).rest = rest := by
  rw [cutGroup, if_pos rfl, Cut.rest_cons, Cut.rest_none]

theorem cutGroup_open (rest : List Char) :
    (cutGroup ('(' :: rest)).rest = (cutGroup (cutGroup rest).rest).rest := by
  rw [cutGroup, if_neg (by decide), if_pos rfl]
  rfl

theorem cutGroup_span (h : isSpanQuote c = true) (rest : List Char) :
    (cutGroup (c :: rest)).rest = (cutGroup (cutSpan c rest).rest).rest := by
  obtain ⟨-, hopen, hclose⟩ := isSpanQuote_ne h
  rw [cutGroup, if_neg hclose, if_neg hopen, if_pos h]
  rfl

theorem cutGroup_ordinary (h : c ∉ ['\'', '"', '(', ')']) (rest : List Char) :
    (cutGroup (c :: rest)).rest = (cutGroup rest).rest := by
  simp only [List.mem_cons, List.not_mem_nil, or_false, not_or] at h
  rw [cutGroup]
  simp [h, isSpanQuote]

def groupPart : Recognizer := fun t =>
  ((quoted t).or (group t)).or (noneOf ['\'', '"', '(', ')'] t)

theorem group_eq_many (rest : List Char) : group ('(' :: rest)
    = (many groupPart rest).bind fun inner =>
        ((optional (exactly ')') inner.rest).map inner.append).map fun k => k.cons '(' := by
  rw [group, if_pos rfl]
  rfl

theorem group_of_follows (rest : List Char)
    (h : ∀ t, t.length ≤ rest.length → Follows groupPart cutGroup (without ')') t) :
    group ('(' :: rest) = some ((cutGroup rest).cons '(') := by
  obtain ⟨inner, hinner, hcut⟩ := many_of_follows rest h
  rw [group_eq_many, hinner]
  exact congrArg some (eq_of_rest hcut)

theorem groupPart_follows (s : List Char) : Follows groupPart cutGroup (without ')') s := by
  match s with
  | [] => exact .inl ⟨by simp [groupPart, quoted_nil, group_nil, noneOf_nil], cutGroup_nil.symm⟩
  | c :: rest =>
    by_cases hquote : isSpanQuote c = true
    · refine .inr ⟨(cutSpan c rest).cons c, ?_, ?_, (cutGroup_span hquote rest).symm⟩
      · rw [groupPart, quoted_span hquote, Option.some_or, Option.some_or]
      · exact Nat.lt_succ_of_le (cutSpan c rest).length_rest_le
    by_cases hopen : c = '('
    · subst hopen
      have hgroup := group_of_follows rest fun t ht =>
        have : t.length < rest.length + 1 := Nat.lt_succ_of_le ht
        groupPart_follows t
      refine .inr ⟨(cutGroup rest).cons '(', ?_, ?_, (cutGroup_open rest).symm⟩
      · rw [groupPart, quoted_ne hquote, hgroup, Option.none_or, Option.some_or]
      · exact Nat.lt_succ_of_le (cutGroup rest).length_rest_le
    have hpart : groupPart (c :: rest) = noneOf ['\'', '"', '(', ')'] (c :: rest) := by
      rw [groupPart, quoted_ne hquote, group_ne hopen, Option.none_or, Option.none_or]
    by_cases hclose : c = ')'
    · subst hclose
      exact .inl ⟨hpart.trans (noneOf_stop (by decide)),
        without_self.trans (cutGroup_close rest).symm⟩
    · have hc : c ∉ ['\'', '"', '(', ')'] := by
        simp only [isSpanQuote, Bool.or_eq_true, beq_iff_eq, not_or] at hquote
        simp [hquote, hopen, hclose]
      obtain ⟨k, hk, hr⟩ := noneOf_start hc rest
      refine .inr ⟨k, hpart.trans hk, hr ▸ length_dropWhile_lt _ rest, ?_⟩
      rw [hr, cutGroup_ordinary hc]
      exact dropWhile_of_skip (fun t => (cutGroup t).rest) cutGroup_ordinary rest
termination_by s.length

theorem group_open (rest : List Char) : group ('(' :: rest) = some ((cutGroup rest).cons '(') :=
  group_of_follows rest fun t _ => groupPart_follows t

/-! ## Arguments -/

theorem cutPiece_nil : (cutPiece []).rest = [] := by rw [cutPiece, Cut.rest_none]

theorem cutPiece_comma (rest : List Char) : (cutPiece (',' :: rest)).rest = ',' :: rest := by
  rw [cutPiece, if_pos rfl, Cut.rest_none]

theorem cutPiece_close (rest : List Char) : (cutPiece (')' :: rest)).rest = [] := by
  rw [cutPiece, if_neg (by decide), if_pos rfl, Cut.rest_all]

theorem cutPiece_open (rest : List Char) :
    (cutPiece ('(' :: rest)).rest = (cutPiece (cutGroup rest).rest).rest := by
  rw [cutPiece, if_neg (by decide), if_neg (by decide), if_pos rfl]
  rfl

theorem cutPiece_span (h : isSpanQuote c = true) (rest : List Char) :
    (cutPiece (c :: rest)).rest = (cutPiece (cutSpan c rest).rest).rest := by
  obtain ⟨hcomma, hopen, hclose⟩ := isSpanQuote_ne h
  rw [cutPiece, if_neg hcomma, if_neg hclose, if_neg hopen, if_pos h]
  rfl

theorem cutPiece_ordinary (h : c ∉ [',', '\'', '"', '(', ')']) (rest : List Char) :
    (cutPiece (c :: rest)).rest = (cutPiece rest).rest := by
  simp only [List.mem_cons, List.not_mem_nil, or_false, not_or] at h
  rw [cutPiece]
  simp [h, isSpanQuote]

def argumentPart : Recognizer := fun t =>
  (((quoted t).or (group t)).or (noneOf [',', '\'', '"', '(', ')'] t)).or
    (followed (exactly ')') everything t)

theorem argumentPart_follows (s : List Char) : Follows argumentPart cutPiece id s := by
  cases s with
  | nil =>
    refine .inl ⟨?_, cutPiece_nil.symm⟩
    rw [argumentPart, quoted_nil, group_nil, noneOf_nil]
    rfl
  | cons c rest =>
    by_cases hquote : isSpanQuote c = true
    · refine .inr ⟨(cutSpan c rest).cons c, ?_, ?_, (cutPiece_span hquote rest).symm⟩
      · rw [argumentPart, quoted_span hquote, Option.some_or, Option.some_or, Option.some_or]
      · exact Nat.lt_succ_of_le (cutSpan c rest).length_rest_le
    by_cases hopen : c = '('
    · subst hopen
      refine .inr ⟨(cutGroup rest).cons '(', ?_, ?_, (cutPiece_open rest).symm⟩
      · rw [argumentPart, quoted_ne hquote, group_open, Option.none_or, Option.some_or,
          Option.some_or]
      · exact Nat.lt_succ_of_le (cutGroup rest).length_rest_le
    have hpart : argumentPart (c :: rest)
        = (noneOf [',', '\'', '"', '(', ')'] (c :: rest)).or
            (followed (exactly ')') everything (c :: rest)) := by
      rw [argumentPart, quoted_ne hquote, group_ne hopen, Option.none_or, Option.none_or]
    by_cases hclose : c = ')'
    · subst hclose
      refine .inr ⟨Cut.all _, ?_, Nat.zero_lt_succ _, ?_⟩
      · rw [hpart, noneOf_stop (by decide), Option.none_or, followed, exactly_self]
        exact congrArg some (eq_of_rest rfl)
      · rw [Cut.rest_all, cutPiece_nil, cutPiece_close]
    by_cases hcomma : c = ','
    · subst hcomma
      refine .inl ⟨?_, (cutPiece_comma rest).symm⟩
      rw [hpart, noneOf_stop (by decide), followed, exactly_ne (by decide)]
      rfl
    · have hc : c ∉ [',', '\'', '"', '(', ')'] := by
        simp only [isSpanQuote, Bool.or_eq_true, beq_iff_eq, not_or] at hquote
        simp [hquote, hopen, hclose, hcomma]
      obtain ⟨k, hk, hr⟩ := noneOf_start hc rest
      refine .inr ⟨k, ?_, hr ▸ length_dropWhile_lt _ rest, ?_⟩
      · rw [hpart, hk, Option.some_or]
      · rw [hr, cutPiece_ordinary hc]
        exact dropWhile_of_skip (fun t => (cutPiece t).rest) cutPiece_ordinary rest

theorem argument_eq_cutPiece (s : List Char) : argument s = some (cutPiece s) := by
  obtain ⟨k, hk, hr⟩ := many_of_follows s fun t _ => argumentPart_follows t
  exact hk.trans (congrArg some (eq_of_rest hr))

/-! ## Lists of arguments -/

theorem separated_eq (s : List Char) : arguments s
    = (separatedItems (exactly ',') argument (cutPiece s).rest).map fun (items, rest) =>
        ((cutPiece s).taken :: items, rest) := by
  rw [arguments, separated, argument_eq_cutPiece]

theorem separatedItems_nil : separatedItems (exactly ',') argument [] = some ([], []) := by
  rw [separatedItems]
  rfl

theorem separatedItems_comma (rest : List Char) :
    separatedItems (exactly ',') argument (',' :: rest) = arguments rest := by
  rw [separatedItems, exactly_self, separated_eq]
  simp [argument_eq_cutPiece]

/-- The grammar accepts every text to its end, with the pieces that are cut. -/
theorem arguments_eq_pieces (s : List Char) : arguments s = some (pieces s, []) := by
  rw [separated_eq]
  fun_induction pieces s with
  | case1 s first h =>
    rw [show (cutPiece s).rest = [] from h, separatedItems_nil]
    rfl
  | case2 s first c rest h ih =>
    have hc : c = ',' := eq_comma_of_rest_cutPiece h
    rw [show (cutPiece s).rest = c :: rest from h, hc, separatedItems_comma, separated_eq, ih]
    rfl

end QuerySql.Grammar
