import QuerySql.Operator.Items
import QuerySql.Proofs.Grammar

/-!
# Scanning an argument list

A scanner reads a list of arguments once, from left to right. Of each character it knows how many
parentheses are open around it and whether it stands in quotes (`Mode`), and it cuts at the commas
outside both. The pieces of a text are what the scanner cuts it into (`pieces_eq_scan`).
-/

namespace QuerySql

namespace Pieces

/-- Whether a lone backslash ends the text before any quote that no backslash stands before. -/
def dangles (quote : Char) : List Char → Bool
  | [] => false
  | ['\\'] => true
  | '\\' :: _ :: rest => dangles quote rest
  | c :: rest => c != quote && dangles quote rest

/-- Where a character stands. -/
inductive Mode where
  /-- Outside quotes, inside so many parentheses. -/
  | nested (depth : Nat)
  /-- Inside quotes. -/
  | quoted (quote : Char) (depth : Nat)
  /-- Inside quotes, behind a backslash. -/
  | escaped (quote : Char) (depth : Nat)
  /-- Behind a closing parenthesis that nothing opened. -/
  | trailing
  deriving DecidableEq, Repr

/-- Where the character behind `c` stands; `rest` is the text from there on. -/
def Mode.next (c : Char) (rest : List Char) : Mode → Mode
  | nested depth =>
    if c = '(' then nested (depth + 1)
    else if c = ')' then
      match depth with
      | 0 => trailing
      | outer + 1 => nested outer
    else if isSpanQuote c && !dangles c rest then quoted c depth
    else nested depth
  | quoted quote depth =>
    if c = '\\' then escaped quote depth
    else if c = quote then nested depth
    else quoted quote depth
  | escaped quote depth => quoted quote depth
  | trailing => trailing

/-- The pieces of a text that starts in a mode. -/
def scanFrom (m : Mode) : List Char → List (List Char)
  | [] => [[]]
  | c :: rest =>
    if m = .nested 0 ∧ c = ',' then [] :: scanFrom m rest
    else (scanFrom (m.next c rest) rest).modifyHead (c :: ·)

/-- The pieces between the commas outside quotes and parentheses. -/
def scan (s : List Char) : List (List Char) := scanFrom (.nested 0) s

example : scan ['a', '(', ',', ')', ',', '\'', ',', '\\']
    = [['a', '(', ',', ')'], ['\''], ['\\']] := by
  decide

/-! ## Steps of the scanner -/

variable {m : Mode} {c quote : Char} {depth : Nat} {s rest : List Char}

theorem scanFrom_cons (h : ¬ (m = .nested 0 ∧ c = ',')) :
    scanFrom m (c :: rest) = (scanFrom (m.next c rest) rest).modifyHead (c :: ·) := by
  rw [scanFrom, if_neg h]

theorem scan_comma (rest : List Char) : scan (',' :: rest) = [] :: scan rest := by
  rw [scan, scanFrom, if_pos ⟨rfl, rfl⟩]
  rfl

theorem scanFrom_open (rest : List Char) : scanFrom (.nested depth) ('(' :: rest)
    = (scanFrom (.nested (depth + 1)) rest).modifyHead ('(' :: ·) :=
  scanFrom_cons (by simp)

theorem scanFrom_close (rest : List Char) : scanFrom (.nested (depth + 1)) (')' :: rest)
    = (scanFrom (.nested depth) rest).modifyHead (')' :: ·) :=
  scanFrom_cons (by simp)

theorem scanFrom_plain (hopen : c ≠ '(') (hclose : c ≠ ')') (hquote : ¬ isSpanQuote c = true)
    (hcut : depth = 0 → c ≠ ',') : scanFrom (.nested depth) (c :: rest)
      = (scanFrom (.nested depth) rest).modifyHead (c :: ·) := by
  rw [scanFrom_cons (by rintro ⟨h, rfl⟩; cases h; exact hcut rfl rfl)]
  simp [Mode.next, hopen, hclose, hquote]

theorem scanFrom_trailing (s : List Char) : scanFrom .trailing s = [s] := by
  induction s with
  | nil => rfl
  | cons c rest ih => rw [scanFrom_cons (by simp), Mode.next, ih]; rfl

/-! ## Quotes -/

theorem cutQuote?_eq_none : cutQuote? quote s = none ↔ dangles quote s = true := by
  fun_induction dangles quote s with
  | case1 => simp [cutQuote?]
  | case2 => simp [cutQuote?]
  | case3 c rest ih => simpa [cutQuote?] using ih
  | case4 c rest hlone hpair ih =>
    rw [cutQuote?.eq_4 _ _ _ hlone hpair]
    by_cases hc : c = quote <;> simp [hc, ih]

theorem ne_backslash (hlone : c = '\\' → rest = [] → False)
    (hpair : ∀ d r, c = '\\' → rest = d :: r → False) : c ≠ '\\' := by
  intro h
  cases rest with
  | nil => exact hlone h rfl
  | cons d r => exact hpair d r h rfl

theorem scanFrom_quoted {k : Cut s} (h : cutQuote? quote s = some k) :
    scanFrom (.quoted quote depth) s
      = (scanFrom (.nested depth) k.rest).modifyHead (k.taken ++ ·) := by
  fun_induction cutQuote? quote s with
  | case1 => cases h; rfl
  | case2 => cases h
  | case3 c rest ih =>
    obtain ⟨k, hk, rfl⟩ := Option.map_eq_some_iff.1 h
    rw [scanFrom_cons (by simp), Mode.next, if_pos rfl, scanFrom_cons (by simp), Mode.next, ih hk,
      List.modifyHead_modifyHead, List.modifyHead_modifyHead]
    rfl
  | case4 rest hlone hpair =>
    cases h
    rw [scanFrom_cons (by simp), Mode.next, if_neg (ne_backslash hlone hpair), if_pos rfl]
    rfl
  | case5 c rest hlone hpair hc ih =>
    obtain ⟨k, hk, rfl⟩ := Option.map_eq_some_iff.1 h
    rw [scanFrom_cons (by simp), Mode.next, if_neg (ne_backslash hlone hpair), if_neg hc, ih hk,
      List.modifyHead_modifyHead]
    rfl

theorem scanFrom_span (h : isSpanQuote c = true) (rest : List Char) :
    scanFrom (.nested depth) (c :: rest)
      = (scanFrom (.nested depth) (cutSpan c rest).rest).modifyHead
          (c :: (cutSpan c rest).taken ++ ·) := by
  obtain ⟨hcomma, hopen, hclose⟩ := isSpanQuote_ne h
  have hnext : Mode.next c rest (.nested depth)
      = if !dangles c rest then .quoted c depth else .nested depth := by
    simp [Mode.next, hopen, hclose, h]
  rw [scanFrom_cons (by simp [hcomma]), hnext]
  cases hk : cutQuote? c rest with
  | none =>
    rw [cutQuote?_eq_none.1 hk, cutSpan, hk]
    rfl
  | some k =>
    have hd : dangles c rest = false := by
      rw [← Bool.not_eq_true, ← cutQuote?_eq_none, hk]
      exact Option.some_ne_none k
    rw [hd, cutSpan, hk, Bool.not_false, if_pos rfl, scanFrom_quoted hk, List.modifyHead_modifyHead]
    rfl

/-! ## Parentheses -/

theorem scanFrom_group (s : List Char) : ∀ depth, scanFrom (.nested (depth + 1)) s
    = (scanFrom (.nested depth) (cutGroup s).rest).modifyHead ((cutGroup s).taken ++ ·) := by
  fun_induction cutGroup s with
  | case1 => exact fun _ => rfl
  | case2 rest => exact fun _ => scanFrom_close rest
  | case3 rest inner _ ihinner ih =>
    intro depth
    rw [scanFrom_open, ihinner, ih, List.modifyHead_modifyHead, List.modifyHead_modifyHead]
    simp [Function.comp_def, inner]
  | case4 c rest _ _ hquote inside ih =>
    intro depth
    rw [scanFrom_span hquote, ih, List.modifyHead_modifyHead]
    simp [Function.comp_def, inside]
  | case5 c rest hclose hopen hquote ih =>
    intro depth
    rw [scanFrom_plain hopen hclose hquote fun h => absurd h (Nat.succ_ne_zero _), ih,
      List.modifyHead_modifyHead]
    rfl

/-! ## Pieces -/

/-- The scanner goes on until the piece ends. -/
theorem scan_cutPiece (s : List Char) :
    scan s = (scan (cutPiece s).rest).modifyHead ((cutPiece s).taken ++ ·) := by
  unfold scan
  fun_induction cutPiece s with
  | case1 => rfl
  | case2 rest => rw [Cut.rest_none, ← scan, scan_comma]; rfl
  | case3 rest =>
    have hnext : Mode.next ')' rest (.nested 0) = .trailing := rfl
    rw [scanFrom_cons (by simp), hnext, scanFrom_trailing, Cut.rest_all, scanFrom]
    simp [Cut.all]
  | case4 rest group _ _ ih =>
    rw [scanFrom_open, scanFrom_group, ih, List.modifyHead_modifyHead, List.modifyHead_modifyHead]
    simp [Function.comp_def, group]
  | case5 c rest _ _ _ hquote inside ih =>
    rw [scanFrom_span hquote, ih, List.modifyHead_modifyHead]
    simp [Function.comp_def, inside]
  | case6 c rest hcomma hclose hopen hquote ih =>
    rw [scanFrom_plain hopen hclose hquote fun _ => hcomma, ih, List.modifyHead_modifyHead]
    rfl

theorem pieces_eq_scan (s : List Char) : pieces s = scan s := by
  fun_induction pieces s with
  | case1 s first h =>
    rw [scan_cutPiece, show (cutPiece s).rest = [] from h]
    simp [scan, scanFrom, first]
  | case2 s first c rest h ih =>
    have hc : c = ',' := eq_comma_of_rest_cutPiece h
    rw [scan_cutPiece, show (cutPiece s).rest = c :: rest from h, hc, scan_comma, ih]
    simp [first]

end Pieces

namespace Items

theorem dropBrackets_cases (s : List Char) :
    s = '[' :: dropBrackets s ++ [']']
      ∨ dropBrackets s = s ∧ ∀ inner, s ≠ '[' :: inner ++ [']'] := by
  cases s with
  | nil => exact .inr ⟨rfl, nofun⟩
  | cons c rest =>
    by_cases hc : c = '['
    · subst hc
      by_cases hl : rest.getLast? = some ']'
      · obtain ⟨inner, rfl⟩ := List.getLast?_eq_some_iff.1 hl
        exact .inl (by simp [dropBrackets])
      · refine .inr ⟨by simp [dropBrackets, hl], fun inner h => hl ?_⟩
        have hr : rest = inner ++ [']'] := (List.cons.inj h).2
        rw [hr, List.getLast?_concat]
    · refine .inr ⟨?_, fun inner h => hc (List.cons.inj h).1⟩
      unfold dropBrackets
      split
      · rename_i h; exact absurd (List.cons.inj h).1 hc
      · rfl

theorem dropBlankLast_append (front : List (List Char)) (last : List Char) :
    dropBlankLast (front ++ [last]) = if Text.trim last = [] then front else front ++ [last] := by
  simp [dropBlankLast]

/-- The items of an argument list are the pieces that the scanner cuts, read one by one. The
grammar accepts every list to its end, with the same pieces. -/
theorem split_eq_scan (s : List Char) : ∃ body front last,
    (s = '[' :: body ++ [']'] ∨ body = s ∧ ∀ inner, s ≠ '[' :: inner ++ [']'])
      ∧ Pieces.scan body = front ++ [last]
      ∧ List.intercalate [','] (Pieces.scan body) = body
      ∧ Grammar.arguments body = some (Pieces.scan body, [])
      ∧ split s = (if Text.trim last = [] then front else front ++ [last]).map
          fun p => coerce (Text.trim p) := by
  obtain ⟨front, last, hlast⟩ : ∃ front last, Pieces.pieces (dropBrackets s) = front ++ [last] :=
    ⟨_, _, (List.dropLast_concat_getLast (Pieces.pieces_ne_nil _)).symm⟩
  refine ⟨dropBrackets s, front, last, dropBrackets_cases s, ?_, ?_, ?_, ?_⟩
  · rw [← Pieces.pieces_eq_scan, hlast]
  · rw [← Pieces.pieces_eq_scan, Pieces.intercalate_pieces]
  · rw [← Pieces.pieces_eq_scan, Grammar.arguments_eq_pieces]
  · rw [split, hlast, dropBlankLast_append]

end Items

end QuerySql
