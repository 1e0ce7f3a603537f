import Mathlib
import QuerySql.Operator.Expression

/-!
# Calls

A text is a call of a name with the text between the first opening parenthesis and a closing one at
its end (`callText`). It is an operator exactly where the name is that of one and the argument fits
it (`Expression.exists_operator_iff`); blanks around it do not count, and whatever is neither a call
nor escaped is a literal (`Expression.read_eq_literalOf`).
-/

namespace QuerySql

namespace Text

variable {s t : List Char} {c d : Char}

theorem trimEnd_append (h : trimEnd t ≠ []) (s : List Char) : trimEnd (s ++ t) = s ++ trimEnd t := by
  unfold trimEnd at *
  rw [List.reverse_append, List.dropWhile_append, if_neg (by simpa using h)]
  simp

theorem getLast?_trim (h : trim s = t ++ [c]) : (trimEnd s).getLast? = some c := by
  have hs : s.takeWhile isBlank ++ trimStart s = s := List.takeWhile_append_dropWhile
  have hne : trimEnd (trimStart s) ≠ [] := by
    show trim s ≠ []
    simp [h]
  rw [← hs, trimEnd_append hne]
  show (_ ++ trim s).getLast? = _
  rw [h, ← List.append_assoc, List.getLast?_concat]

theorem trim_eq_self (hc : isBlank c = false) (hd : isBlank d = false) (s : List Char) :
    trim (c :: s ++ [d]) = c :: s ++ [d] := by
  have hstart : trimStart (c :: s ++ [d]) = c :: s ++ [d] :=
    List.dropWhile_cons_of_neg (by simp [hc])
  rw [trim, hstart, trimEnd, List.reverse_append, List.reverse_singleton, List.singleton_append,
    List.dropWhile_cons_of_neg (by simp [hd]), List.reverse_cons, List.reverse_reverse]

end Text

namespace Operator

def names : List String :=
  ["$Like", "$ILike", "$LessThan", "$LessThanOrEqual", "$MoreThan", "$MoreThanOrEqual", "$IsNull",
    "$Between", "$In", "$Any", "$And", "$Not", "$Max", "$Min", "$Sum", "$Avg", "$Count", "$Total"]

/-- Whether the name is that of an operator that takes the value as its argument. -/
structure Fits (name : String) (v : Json) : Prop where
  known : name ∈ names
  bounds : name = "$Between" → ∃ low high rest, v = .array (low :: high :: rest)

variable {name : String} {v : Json}

theorem Fits.of_ofCall? {op : Operator} (h : ofCall? name v = some op) : Fits name v := by
  unfold ofCall? at h
  split at h
  case h_11 =>
    split at h
    · exact ⟨by decide, fun _ => ⟨_, _, _, rfl⟩⟩
    · cases h
  case h_18 => cases h
  all_goals exact ⟨by decide, fun h => absurd h (by decide)⟩

theorem Fits.exists_ofCall? (h : Fits name v) (hn : name ≠ "$Not") :
    ∃ op, ofCall? name v = some op := by
  by_cases hb : name = "$Between"
  · obtain ⟨low, high, rest, rfl⟩ := h.bounds hb
    subst hb
    exact ⟨_, rfl⟩
  · have hk := h.known
    simp only [names, List.mem_cons, List.not_mem_nil, or_false, hn, hb, false_or] at hk
    rcases hk with rfl | rfl | rfl | rfl | rfl | rfl | rfl | rfl | rfl | rfl | rfl | rfl | rfl | rfl
      | rfl | rfl <;> exact ⟨_, rfl⟩

end Operator

namespace Expression

def callText (name : String) (args : List Char) : List Char := name.toList ++ '(' :: args ++ [')']

variable {s t args : List Char} {name : String}

/-! ## The form of a call -/

theorem takeWhile_callText (hp : '(' ∉ name.toList) :
    (callText name args).takeWhile isNameChar = name.toList := by
  have hname : ∀ c ∈ name.toList, isNameChar c = true := by
    intro c hc
    exact bne_iff_ne.2 fun he => hp (he ▸ hc)
  rw [callText, List.append_assoc, List.takeWhile_append_of_pos hname]
  simp [isNameChar]

/-- The first parenthesis tells the name of a call from its argument. -/
theorem callText_inj {name' : String} {args' : List Char} (hp : '(' ∉ name.toList)
    (hp' : '(' ∉ name'.toList) (h : callText name args = callText name' args') :
    name = name' ∧ args = args' := by
  have hname : name.toList = name'.toList := by
    rw [← takeWhile_callText hp, h, takeWhile_callText hp']
  unfold callText at h
  rw [hname] at h
  exact ⟨String.toList_inj.1 hname, by simpa using h⟩

theorem call?_callText (hn : name ≠ "") (hp : '(' ∉ name.toList) :
    call? (callText name args) = some (name, args) := by
  have htake : (callText name args).takeWhile isNameChar = name.toList := takeWhile_callText hp
  have hdrop : (callText name args).dropWhile isNameChar = '(' :: args ++ [')'] := by
    have hs : (callText name args).takeWhile isNameChar ++ (callText name args).dropWhile isNameChar
        = callText name args := List.takeWhile_append_dropWhile
    rw [htake] at hs
    exact List.append_cancel_left (hs.trans (List.append_assoc ..))
  obtain ⟨c, cs, hc⟩ := List.exists_cons_of_ne_nil (mt String.toList_eq_nil_iff.1 hn)
  unfold call?
  rw [htake, hdrop, hc]
  show (if (args ++ [')']).getLast? == some ')' then
    some (String.ofList (c :: cs), (args ++ [')']).dropLast) else none) = _
  rw [← hc]
  simp

theorem eq_callText_of_call? (h : call? t = some (name, args)) :
    t = callText name args ∧ name ≠ "" ∧ '(' ∉ name.toList := by
  have hs : t.takeWhile isNameChar ++ t.dropWhile isNameChar = t := List.takeWhile_append_dropWhile
  have hall : ∀ c ∈ t.takeWhile isNameChar, isNameChar c = true :=
    List.all_eq_true.1 List.all_takeWhile
  have hhead := List.head?_dropWhile_not isNameChar t
  unfold call? at h
  split at h
  · rename_i c cs d rest htake hdrop
    split at h
    · rename_i hlast
      cases h
      obtain ⟨args, rfl⟩ := List.getLast?_eq_some_iff.1 (eq_of_beq hlast)
      rw [hdrop] at hhead hs
      have hd : d = '(' := by simpa [isNameChar] using hhead
      refine ⟨?_, ?_, ?_⟩
      · rw [← hs, htake, hd]
        simp [callText]
      · simp
      · intro hm
        rw [String.toList_ofList, ← htake] at hm
        exact absurd (hall _ hm) (by decide)
    · cases h
  · cases h

/-- The texts that have the form of a call. -/
theorem shape_eq_call_iff : Shape.of t = .call name args
    ↔ t = callText name args ∧ name ≠ "" ∧ '(' ∉ name.toList ∧ name.toList.head? ≠ some '\\' := by
  constructor
  · intro h
    unfold Shape.of at h
    split at h
    · cases h
    · rename_i hne
      split at h
      · rename_i hc
        cases h
        obtain ⟨rfl, hn, hp⟩ := eq_callText_of_call? hc
        refine ⟨rfl, hn, hp, fun hhead => ?_⟩
        obtain ⟨rest, hrest⟩ := List.head?_eq_some_iff.1 hhead
        exact hne (rest ++ '(' :: args ++ [')']) (by rw [callText, hrest]; rfl)
      · cases h
  · rintro ⟨rfl, hn, hp, hhead⟩
    unfold Shape.of
    split
    · rename_i rest hrest
      obtain ⟨c, cs, hc⟩ := List.exists_cons_of_ne_nil (mt String.toList_eq_nil_iff.1 hn)
      rw [callText, hc] at hrest
      rw [hc, (List.cons.inj hrest).1] at hhead
      exact absurd rfl hhead
    · rw [call?_callText hn hp]

theorem shape_eq_escaped_iff {rest : List Char} : Shape.of t = .escaped rest ↔ t = '\\' :: rest := by
  constructor
  · intro h
    unfold Shape.of at h
    split at h
    · cases h; rfl
    · split at h <;> cases h
  · rintro rfl
    rfl

/-! ## What is read -/

theorem read_plain (h : Shape.of (Text.trim s) = .plain) : read s = literalOf s := by
  rw [read]
  split
  · rename_i h'; rw [h] at h'; cases h'
  · rfl
  · rename_i h'; rw [h] at h'; cases h'

theorem read_escaped {rest : List Char} (h : Shape.of (Text.trim s) = .escaped rest) :
    read s = .escaped (String.ofList rest) := by
  rw [read]
  split
  · rename_i h'; rw [h] at h'; cases h'; rfl
  · rename_i h'; rw [h] at h'; cases h'
  · rename_i h'; rw [h] at h'; cases h'

def test? : Expression → Option Test
  | .operator (.test inner) => some inner
  | _ => none

theorem test?_eq_some_iff {e : Expression} {inner : Test} :
    test? e = some inner ↔ e = .operator (.test inner) := by
  unfold test?
  split
  · simp
  · rename_i hne
    constructor
    · intro h
      cases h
    · intro h
      exact (hne inner h).elim

/-- The test that `$Not` negates in front of a value, if the value is the text of one. -/
def negated? (v : Json) : Option Test := (innerCall? v).bind fun text => test? (read text)

/-- What a call means with the value of its argument. -/
theorem read_of_call (h : Shape.of (Text.trim s) = .call name args) :
    read s = if name = "$Not" then
        .operator (((negated? (Argument.decode args)).map .not).getD
          (.notEqual (Argument.decode args)))
      else ((Operator.ofCall? name (Argument.decode args)).map .operator).getD (literalOf s) := by
  rw [read]
  split
  · rename_i h'; rw [h] at h'; cases h'
  · rename_i h'; rw [h] at h'; cases h'
  · rename_i h'
    rw [h] at h'
    cases h'
    by_cases hn : name = "$Not"
    · subst hn
      rw [if_pos rfl, if_pos rfl, negated?]
      split
      · rename_i hi
        rw [hi]
        rfl
      · rename_i text hi
        dsimp only
        rw [hi, Option.bind_some]
        cases read text with
        | operator op => cases op <;> rfl
        | literal => rfl
        | escaped => rfl
    · rw [if_neg hn, if_neg hn]
      split
      · rename_i ho
        rw [ho]
        rfl
      · rename_i ho
        rw [ho]
        rfl

theorem exists_shape_of_read {op : Operator} (h : read s = .operator op) :
    ∃ name args, Shape.of (Text.trim s) = .call name args := by
  cases hs : Shape.of (Text.trim s) with
  | escaped rest =>
    rw [read_escaped hs] at h
    cases h
  | plain =>
    rw [read_plain hs] at h
    cases h
  | call name args => exact ⟨name, args, rfl⟩

theorem innerCall?_of_read {text : String} {op : Operator} (h : read text.toList = .operator op) :
    innerCall? (.string text) = some text.toList := by
  obtain ⟨name, args, hs⟩ := exists_shape_of_read h
  obtain ⟨ht, -⟩ := shape_eq_call_iff.1 hs
  have hend : endsLikeCall text.toList = true := by
    unfold endsLikeCall
    rw [Text.getLast?_trim ht]
    rfl
  exact if_pos hend

theorem eq_string_of_innerCall? {v : Json} {text : List Char} (h : innerCall? v = some text) :
    ∃ str : String, v = .string str ∧ text = str.toList := by
  unfold innerCall? at h
  split at h
  · split at h
    · cases h
      exact ⟨_, rfl, rfl⟩
    · cases h
  · cases h

/-- `$Not` negates the tests that a value writes, blanks apart. -/
theorem negated?_eq_some_iff {v : Json} {inner : Test} : negated? v = some inner
    ↔ ∃ text : String, v = .string text ∧ read text.toList = .operator (.test inner) := by
  unfold negated?
  constructor
  · intro h
    obtain ⟨text, hn, h⟩ := Option.bind_eq_some_iff.1 h
    obtain ⟨str, rfl, rfl⟩ := eq_string_of_innerCall? hn
    exact ⟨str, rfl, test?_eq_some_iff.1 h⟩
  · rintro ⟨text, rfl, hr⟩
    rw [innerCall?_of_read hr, Option.bind_some]
    exact test?_eq_some_iff.2 hr

/-! ## Which texts are operators -/

theorem read_call_cases (h : Shape.of (Text.trim s) = .call name args) :
    ((∃ op, read s = .operator op) ∧ Operator.Fits name (Argument.decode args))
      ∨ (read s = literalOf s ∧ ¬ Operator.Fits name (Argument.decode args)) := by
  have hr := read_of_call h
  by_cases hn : name = "$Not"
  · rw [if_pos hn] at hr
    refine .inl ⟨⟨_, hr⟩, ?_, ?_⟩ <;> rw [hn]
    · decide
    · exact fun h => absurd h (by decide)
  · rw [if_neg hn] at hr
    cases ho : Operator.ofCall? name (Argument.decode args) with
    | some op =>
      rw [ho] at hr
      exact .inl ⟨⟨op, hr⟩, .of_ofCall? ho⟩
    | none =>
      rw [ho] at hr
      refine .inr ⟨hr, fun hf => ?_⟩
      obtain ⟨op, hop⟩ := hf.exists_ofCall? hn
      rw [ho] at hop
      cases hop

theorem head?_of_mem_names (h : name ∈ Operator.names) :
    name.toList.head? = some '$' ∧ '(' ∉ name.toList := by
  revert name
  decide

theorem shape_of_mem_names (h : name ∈ Operator.names) (args : List Char) :
    Shape.of (callText name args) = .call name args := by
  obtain ⟨hhead, hp⟩ := head?_of_mem_names h
  refine shape_eq_call_iff.2 ⟨rfl, ?_, hp, ?_⟩
  · rintro rfl
    cases hhead
  · rw [hhead]
    decide

/-- A text is an operator exactly where it is a call of the name of one and the argument fits. -/
theorem exists_operator_iff : (∃ op, read s = .operator op)
    ↔ ∃ name args, Text.trim s = callText name args
        ∧ Operator.Fits name (Argument.decode args) := by
  constructor
  · rintro ⟨op, hop⟩
    obtain ⟨name, args, hs⟩ := exists_shape_of_read hop
    rcases read_call_cases hs with ⟨-, hf⟩ | ⟨hl, -⟩
    · exact ⟨name, args, (shape_eq_call_iff.1 hs).1, hf⟩
    · rw [hl] at hop
      cases hop
  · rintro ⟨name, args, ht, hf⟩
    have hs : Shape.of (Text.trim s) = .call name args := by
      rw [ht]
      exact shape_of_mem_names hf.known args
    rcases read_call_cases hs with ⟨hop, -⟩ | ⟨-, hno⟩
    · exact hop
    · exact absurd hf hno

theorem read_eq_literalOf (h : ∀ op, read s ≠ .operator op)
    (he : ∀ rest, Text.trim s ≠ '\\' :: rest) : read s = literalOf s := by
  cases hs : Shape.of (Text.trim s) with
  | escaped rest => exact absurd (shape_eq_escaped_iff.1 hs) (he rest)
  | plain => exact read_plain hs
  | call name args =>
    rcases read_call_cases hs with ⟨⟨op, hop⟩, -⟩ | ⟨hl, -⟩
    · exact absurd hop (h op)
    · exact hl

end Expression

end QuerySql
