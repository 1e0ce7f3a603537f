/-!
# Pieces of an argument list

A list of arguments is cut at its commas, but not inside quotes or parentheses. A quote opens a
span that runs to the next such quote that no backslash stands before, or to the end; where the
text would end in a lone backslash first, the quote is an ordinary character. Parentheses nest; an
open one runs to the end, and a closing one that nothing opened takes all text behind it.

A cut carries the fact that nothing is lost, so the pieces with commas between them are the text
(`intercalate_pieces`).
-/

namespace QuerySql.Pieces

/-- A text cut in two. -/
structure Cut (s : List Char) where
  taken : List Char
  rest : List Char
  whole : taken ++ rest = s

namespace Cut

variable {s : List Char}

def none (s : List Char) : Cut s := ⟨[], s, rfl⟩

def all (s : List Char) : Cut s := ⟨s, [], List.append_nil s⟩

def cons (c : Char) (k : Cut s) : Cut (c :: s) := ⟨c :: k.taken, k.rest, by simp [k.whole]⟩

/-- The cut that also takes what a second cut takes of the rest. -/
def append (k : Cut s) (l : Cut k.rest) : Cut s :=
  ⟨k.taken ++ l.taken, l.rest, by rw [List.append_assoc, l.whole, k.whole]⟩

@[simp] theorem rest_none : (none s).rest = s := rfl

@[simp] theorem rest_all : (all s).rest = [] := rfl

variable (c : Char) (k : Cut s) (l : Cut k.rest)

@[simp] theorem taken_cons : (k.cons c).taken = c :: k.taken := rfl

@[simp] theorem rest_cons : (k.cons c).rest = k.rest := rfl

@[simp] theorem taken_append : (k.append l).taken = k.taken ++ l.taken := rfl

@[simp] theorem rest_append : (k.append l).rest = l.rest := rfl

theorem length_add (k : Cut s) : k.taken.length + k.rest.length = s.length := by
  rw [← List.length_append, k.whole]

theorem length_rest_le (k : Cut s) : k.rest.length ≤ s.length := by
  have := k.length_add
  omega

theorem length_taken_le (k : Cut s) : k.taken.length ≤ s.length := by
  have := k.length_add
  omega

end Cut

def isSpanQuote (c : Char) : Bool := c == '\'' || c == '"'

theorem isSpanQuote_ne {c : Char} (h : isSpanQuote c = true) : c ≠ ',' ∧ c ≠ '(' ∧ c ≠ ')' := by
  simp only [isSpanQuote, Bool.or_eq_true, beq_iff_eq] at h
  rcases h with rfl | rfl <;> decide

/-- The text behind an opening quote up to and with the closing one; `none` if a lone backslash
ends the text before that. -/
def cutQuote? (quote : Char) : (s : List Char) → Option (Cut s)
  | [] => some (Cut.none [])
  | ['\\'] => none
  | '\\' :: c :: rest => (cutQuote? quote rest).map fun k => (k.cons c).cons '\\'
  | c :: rest =>
    if c = quote then some ((Cut.none rest).cons c)
    else (cutQuote? quote rest).map fun k => k.cons c

theorem cutQuote?_self {quote : Char} (h : quote ≠ '\\') (rest : List Char) :
    cutQuote? quote (quote :: rest) = some ((Cut.none rest).cons quote) := by
  rw [cutQuote?.eq_4 _ _ _ (fun he _ => h he) fun _ _ he _ => h he, if_pos rfl]

theorem cutQuote?_of_ne {quote c : Char} (hb : c ≠ '\\') (hq : c ≠ quote) (rest : List Char) :
    cutQuote? quote (c :: rest) = (cutQuote? quote rest).map fun k => k.cons c := by
  rw [cutQuote?.eq_4 _ _ _ (fun he _ => hb he) fun _ _ he _ => hb he, if_neg hq]

/-- The rest of a quoted span behind its opening quote; nothing if the quote is an ordinary
character. -/
def cutSpan (quote : Char) (s : List Char) : Cut s := (cutQuote? quote s).getD (Cut.none s)

/-- The text behind an opening parenthesis up to and with the one that closes it. -/
def cutGroup (s : List Char) : Cut s :=
  match s with
  | [] => Cut.none []
  | c :: rest =>
    if c = ')' then (Cut.none rest).cons c
    else if c = '(' then
      let inner := cutGroup rest
      (inner.append (cutGroup inner.rest)).cons c
    else if isSpanQuote c then
      let inside := cutSpan c rest
      (inside.append (cutGroup inside.rest)).cons c
    else (cutGroup rest).cons c
termination_by s.length
decreasing_by
  all_goals first
    | exact Nat.lt_succ_self _
    | exact Nat.lt_succ_of_le (Cut.length_rest_le _)

/-- The first piece: the text up to the comma that ends it. -/
def cutPiece (s : List Char) : Cut s :=
  match s with
  | [] => Cut.none []
  | c :: rest =>
    if c = ',' then Cut.none (c :: rest)
    else if c = ')' then Cut.all (c :: rest)
    else if c = '(' then
      let group := cutGroup rest
      (group.append (cutPiece group.rest)).cons c
    else if isSpanQuote c then
      let inside := cutSpan c rest
      (inside.append (cutPiece inside.rest)).cons c
    else (cutPiece rest).cons c
termination_by s.length
decreasing_by
  all_goals first
    | exact Nat.lt_succ_self _
    | exact Nat.lt_succ_of_le (Cut.length_rest_le _)

def pieces (s : List Char) : List (List Char) :=
  let first := cutPiece s
  match _h : first.rest with
  | [] => [first.taken]
  | _ :: rest => first.taken :: pieces rest
termination_by s.length
decreasing_by
  have hle := first.length_rest_le
  simp only [_h, List.length_cons] at hle
  omega

theorem rest_cutPiece (s : List Char) :
    (cutPiece s).rest = [] ∨ ∃ rest, (cutPiece s).rest = ',' :: rest := by
  fun_induction cutPiece s with
  | case1 => exact .inl rfl
  | case2 rest => exact .inr ⟨rest, rfl⟩
  | case3 => exact .inl rfl
  | case4 rest group _ _ ih => exact ih
  | case5 c rest _ _ _ _ inside ih => exact ih
  | case6 c rest _ _ _ _ ih => exact ih

theorem eq_comma_of_rest_cutPiece {s rest : List Char} {c : Char}
    (h : (cutPiece s).rest = c :: rest) : c = ',' := by
  rcases rest_cutPiece s with h' | ⟨r, h'⟩
  · rw [h] at h'; cases h'
  · rw [h] at h'; cases h'; rfl

theorem pieces_ne_nil (s : List Char) : pieces s ≠ [] := by
  unfold pieces
  dsimp only
  split <;> simp

/-- No text is lost: the pieces with commas between them are the text. -/
theorem intercalate_pieces (s : List Char) : List.intercalate [','] (pieces s) = s := by
  fun_induction pieces s with
  | case1 s first h =>
    have hw := first.whole
    simpa [h] using hw
  | case2 s first c rest h ih =>
    have hw := first.whole
    have hc : c = ',' := eq_comma_of_rest_cutPiece h
    obtain ⟨p, ps, hp⟩ := List.exists_cons_of_ne_nil (pieces_ne_nil rest)
    rw [hp] at ih ⊢
    rw [h, hc] at hw
    rw [List.intercalate_cons_cons, ih]
    simpa using hw

theorem length_le_of_mem_pieces {s p : List Char} (h : p ∈ pieces s) : p.length ≤ s.length := by
  fun_induction pieces s with
  | case1 s first hr =>
    rw [List.mem_singleton] at h
    subst h
    exact first.length_taken_le
  | case2 s first c rest hr ih =>
    rcases List.mem_cons.1 h with rfl | h
    · exact first.length_taken_le
    · have := ih h
      have hl := first.length_rest_le
      simp only [hr, List.length_cons] at hl
      omega

end QuerySql.Pieces
