import QuerySql.Json.Document
import QuerySql.Json.Inside
import QuerySql.Json.Numeral
import QuerySql.Text.Blank

/-!
# Taking a JSON text apart

`Document.scan` takes one document from the front of a text. The scan ends at the first fault after
which nothing more can be told apart; all lists and objects around it end there too. The result
carries the bound that makes the recursion end: the document and the text left over are together
no longer than the text.
-/

namespace QuerySql

/-- A piece taken from the front of `s`, and the text behind it unless a fault ended the scan. -/
structure Scanned {α : Type} (size : α → Nat) (s : List Char) where
  piece : α
  rest : Option (List Char)
  /-- What was taken and what is left are no more than there was. -/
  fits : size piece + (rest.getD []).length ≤ s.length
  shorter : ∀ r, rest = some r → r.length < s.length

namespace Scanned

/-- A piece that was scanned from a text that is no longer than `s`. -/
def within {α : Type} {size : α → Nat} {s t : List Char} (p : Scanned size t)
    (h : t.length ≤ s.length) : Scanned size s :=
  ⟨p.piece, p.rest, Nat.le_trans p.fits h, fun r hr => Nat.lt_of_lt_of_le (p.shorter r hr) h⟩

end Scanned

namespace Document

/-- A blank between the parts of a JSON text: a space, a tab or the end of a line. -/
def isSpace (c : Char) : Bool := c == ' ' || c == '\t' || c == '\n' || c == '\r'

def dropSpace (s : List Char) : List Char := s.dropWhile isSpace

theorem length_dropSpace_le (s : List Char) : (dropSpace s).length ≤ s.length :=
  Text.length_dropWhile_le isSpace s

/-- The text behind a word that starts the text. -/
def scanWord : List Char → List Char → Except TextFault (List Char)
  | [], s => .ok s
  | _ :: _, [] => .error .unfinishedValue
  | e :: es, c :: s => if e = c then scanWord es s else .error .expectedWord

theorem eq_append_of_scanWord {word s rest : List Char} (h : scanWord word s = .ok rest) :
    s = word ++ rest := by
  induction word generalizing s with
  | nil => cases h; rfl
  | cons e es ih =>
    cases s with
    | nil => cases h
    | cons c s =>
      simp only [scanWord] at h
      split at h
      · rename_i he
        rw [he, ih h]
        rfl
      · cases h

theorem length_scanWord_le {word s rest : List Char} (h : scanWord word s = .ok rest) :
    rest.length ≤ s.length := by
  rw [eq_append_of_scanWord h, List.length_append]
  omega

/-- Nothing that is a value, where the value should start with `first`. -/
def scanBroken (s : List Char) (first : Option Char) (reading passing : TextFault) :
    Scanned weight s :=
  ⟨.broken first reading passing, none, Nat.zero_le _, fun _ h => nomatch h⟩

/-- The word behind its first letter, and what it stands for. -/
def scanWordAs (d : Document) (hd : weight d = 1) (first : Char) (word t : List Char) :
    Scanned weight (first :: t) :=
  match h : scanWord word t with
  | .ok rest =>
    ⟨d, some rest, by
      have := length_scanWord_le h
      simp only [hd, Option.getD_some, List.length_cons]; omega,
      fun r hr => by
        cases hr
        have := length_scanWord_le h
        simp only [List.length_cons]; omega⟩
  | .error f => scanBroken _ (some first) f f

def scanString (t : List Char) : Scanned weight ('"' :: t) :=
  match h : (Inside.scan t).rest with
  | .error f => scanBroken _ (some '"') ((Inside.scan t).readersFault.getD f) f
  | .ok rest =>
    let value := match (Inside.scan t).readersFault with
      | some f => .error f
      | none => .ok (String.ofList (Inside.scan t).chars)
    ⟨.string value, some rest, by
      have := Inside.length_chars_lt h
      have hw : weight (.string value) ≤ (Inside.scan t).chars.length + 1 := by
        simp only [value]
        split <;> simp [weight, String.length_ofList]
      simp only [Option.getD_some, List.length_cons]; omega,
      fun r hr => by
        cases hr
        have := Inside.length_chars_lt h
        simp only [List.length_cons]; omega⟩

def scanName : (s : List Char) → Scanned weight s
  | '"' :: t => scanString t
  | s => scanBroken s none .expectedName .expectedName

/-- The number at the front of the text. A fault in a number that is passed over is always a bad
number. -/
def scanNumber (c : Char) (t : List Char) : Scanned weight (c :: t) :=
  match h : Numeral.scan (c :: t) with
  | .error f => scanBroken _ (some c) f .badNumber
  | .ok (n, rest) =>
    ⟨.number n.number, some rest, by
      have := Numeral.scan_shorter h
      simp only [weight, Option.getD_some]; omega,
      fun r hr => by cases hr; exact Numeral.scan_shorter h⟩

def sizeOfItems (p : List Document × Option Break) : Nat := weightOfItems p.1

def sizeOfMembers (p : List (Document × Document) × Option Break) : Nat := weightOfMembers p.1

def isTooDeep (level : Nat) : Bool := depthLimit ≤ level + 1

mutual

/-- The document at the front of a text, within `level` lists and objects. -/
def scan (level : Nat) (s : List Char) : Scanned weight s :=
  have hs := length_dropSpace_le s
  match h : dropSpace s with
  | [] => scanBroken s none .unfinishedValue .unfinishedValue
  | 'n' :: t => (scanWordAs .null rfl 'n' ['u', 'l', 'l'] t).within (h ▸ hs)
  | 't' :: t => (scanWordAs (.bool true) rfl 't' ['r', 'u', 'e'] t).within (h ▸ hs)
  | 'f' :: t => (scanWordAs (.bool false) rfl 'f' ['a', 'l', 's', 'e'] t).within (h ▸ hs)
  | '"' :: t => (scanString t).within (h ▸ hs)
  | '[' :: t =>
    have ht := length_dropSpace_le t
    have hts : t.length < s.length := by rw [h] at hs; exact hs
    match ht' : dropSpace t with
    | [] => ⟨.array (isTooDeep level) [] (some .endOfText), none, by
        simp [weight, weightOfItems]; omega, fun _ h => by cases h⟩
    | ']' :: rest => ⟨.array (isTooDeep level) [] none, some rest, by
        simp only [ht', List.length_cons] at ht
        simp [weight, weightOfItems]; omega, fun r hr => by
        cases hr
        simp only [ht', List.length_cons] at ht; omega⟩
    | u =>
      let p := scanItems (level + 1) u
      ⟨.array (isTooDeep level) p.piece.1 p.piece.2, p.rest, by
        have := p.fits
        simp only [sizeOfItems] at this
        simp only [ht'] at ht
        simp only [weight]; omega, fun r hr => by
        have := p.shorter r hr
        simp only [ht'] at ht; omega⟩
  | '\x7b' :: t =>
    have ht := length_dropSpace_le t
    have hts : t.length < s.length := by rw [h] at hs; exact hs
    match ht' : dropSpace t with
    | [] => ⟨.object (isTooDeep level) [] (some .endOfText), none, by
        simp [weight, weightOfMembers]; omega, fun _ h => by cases h⟩
    | '\x7d' :: rest => ⟨.object (isTooDeep level) [] none, some rest, by
        simp only [ht', List.length_cons] at ht
        simp [weight, weightOfMembers]; omega, fun r hr => by
        cases hr
        simp only [ht', List.length_cons] at ht; omega⟩
    | u =>
      let p := scanMembers (level + 1) u
      ⟨.object (isTooDeep level) p.piece.1 p.piece.2, p.rest, by
        have := p.fits
        simp only [sizeOfMembers] at this
        simp only [ht'] at ht
        simp only [weight]; omega, fun r hr => by
        have := p.shorter r hr
        simp only [ht'] at ht; omega⟩
  | c :: t =>
    if c == '-' || c.isDigit then (scanNumber c t).within (h ▸ hs)
    else scanBroken s (some c) .expectedValue .expectedValue
termination_by (s.length, 0)

def scanItems (level : Nat) (s : List Char) : Scanned sizeOfItems s :=
  let first := scan level s
  match hr : first.rest with
  | none => ⟨([first.piece], none), none, by
      have := first.fits
      simp only [sizeOfItems, weightOfItems, Option.getD_none, List.length_nil]; omega,
      fun _ h => by cases h⟩
  | some r =>
    have hfits : weight first.piece + r.length ≤ s.length := by
      have := first.fits; rwa [hr] at this
    have hrs := first.shorter r hr
    have hd := length_dropSpace_le r
    match hr' : dropSpace r with
    | ']' :: rest => ⟨([first.piece], none), some rest, by
        simp only [hr', List.length_cons] at hd
        simp only [sizeOfItems, weightOfItems, Option.getD_some]; omega, fun t ht => by
        cases ht
        simp only [hr', List.length_cons] at hd; omega⟩
    | ',' :: t =>
      have ht := length_dropSpace_le t
      have htr : t.length < r.length := by
        simp only [hr', List.length_cons] at hd; omega
      match ht' : dropSpace t with
      | [] => ⟨([first.piece], some .endAfterComma), none, by
          simp only [sizeOfItems, weightOfItems, Option.getD_none, List.length_nil]; omega,
          fun _ h => by cases h⟩
      | ']' :: _ => ⟨([first.piece], some .bracketAfterComma), none, by
          simp only [sizeOfItems, weightOfItems, Option.getD_none, List.length_nil]; omega,
          fun _ h => by cases h⟩
      | u =>
        let others := scanItems level u
        ⟨(first.piece :: others.piece.1, others.piece.2), others.rest, by
          have := others.fits
          simp only [sizeOfItems] at this
          simp only [ht'] at ht
          simp only [sizeOfItems, weightOfItems]; omega, fun x hx => by
          have := others.shorter x hx
          simp only [ht'] at ht; omega⟩
    | [] => ⟨([first.piece], some .endOfText), none, by
        simp only [sizeOfItems, weightOfItems, Option.getD_none, List.length_nil]; omega,
        fun _ h => by cases h⟩
    | _ => ⟨([first.piece], some .noComma), none, by
        simp only [sizeOfItems, weightOfItems, Option.getD_none, List.length_nil]; omega,
        fun _ h => by cases h⟩
termination_by (s.length, 1)

/-- The value of a member from behind its name on. -/
def scanMemberValue (level : Nat) (s : List Char) : Scanned weight s :=
  have hs := length_dropSpace_le s
  match h : dropSpace s with
  | [] => scanBroken s none .unfinishedObject .unfinishedObject
  | ':' :: t =>
    have hts : t.length < s.length := by rw [h] at hs; exact hs
    (scan level t).within (Nat.le_of_lt hts)
  | _ :: _ => scanBroken s none .expectedColon .expectedColon
termination_by (s.length, 0)

def scanMembers (level : Nat) (s : List Char) : Scanned sizeOfMembers s :=
  let name := scanName s
  match hn : name.rest with
  | none => ⟨([(name.piece, .broken none .expectedName .expectedName)], none), none, by
      have := name.fits
      simp only [sizeOfMembers, weightOfMembers, weight, Option.getD_none, List.length_nil]; omega,
      fun _ h => by cases h⟩
  | some n =>
    have hns := name.shorter n hn
    have hname : weight name.piece + n.length ≤ s.length := by
      have := name.fits; rwa [hn] at this
    let value := scanMemberValue level n
    let member := (name.piece, value.piece)
    match hr : value.rest with
    | none => ⟨([member], none), none, by
        have := value.fits
        simp only [sizeOfMembers, weightOfMembers, member, Option.getD_none, List.length_nil]
        omega,
        fun _ h => by cases h⟩
    | some r =>
      have hfits : weight name.piece + weight value.piece + r.length ≤ s.length := by
        have := value.fits
        rw [hr] at this
        simp only [Option.getD_some] at this; omega
      have hrs := value.shorter r hr
      have hd := length_dropSpace_le r
      match hr' : dropSpace r with
      | '\x7d' :: rest => ⟨([member], none), some rest, by
          simp only [hr', List.length_cons] at hd
          simp only [sizeOfMembers, weightOfMembers, member, Option.getD_some]
          omega,
          fun t ht => by
          cases ht
          simp only [hr', List.length_cons] at hd; omega⟩
      | ',' :: t =>
        have ht := length_dropSpace_le t
        have htr : t.length < r.length := by
          simp only [hr', List.length_cons] at hd; omega
        match ht' : dropSpace t with
        | [] => ⟨([member], some .endAfterComma), none, by
            simp only [sizeOfMembers, weightOfMembers, member, Option.getD_none, List.length_nil]
            omega,
            fun _ h => by cases h⟩
        | '\x7d' :: _ => ⟨([member], some .bracketAfterComma), none, by
            simp only [sizeOfMembers, weightOfMembers, member, Option.getD_none, List.length_nil]
            omega,
            fun _ h => by cases h⟩
        | u =>
          let others := scanMembers level u
          ⟨(member :: others.piece.1, others.piece.2), others.rest, by
            have := others.fits
            simp only [sizeOfMembers] at this
            simp only [ht'] at ht
            simp only [sizeOfMembers, weightOfMembers, member]; omega, fun x hx => by
            have := others.shorter x hx
            simp only [ht'] at ht; omega⟩
      | [] => ⟨([member], some .endOfText), none, by
          simp only [sizeOfMembers, weightOfMembers, member, Option.getD_none, List.length_nil]
          omega,
          fun _ h => by cases h⟩
      | _ => ⟨([member], some .noComma), none, by
          simp only [sizeOfMembers, weightOfMembers, member, Option.getD_none, List.length_nil]
          omega,
          fun _ h => by cases h⟩
termination_by (s.length, 1)

end

/-! ## What starts no value -/

def startsValue (c : Char) : Bool :=
  ['n', 't', 'f', '"', '[', '\x7b', '-'].contains c || c.isDigit

theorem read_scan_of_plain {level : Nat} {c : Char} {t : List Char} (hs : isSpace c = false)
    (hc : startsValue c = false) : (scan level (c :: t)).piece.read = .error .expectedValue := by
  have hd : dropSpace (c :: t) = c :: t := List.dropWhile_cons_of_neg (by simp [hs])
  simp only [startsValue, Bool.or_eq_false_iff] at hc
  rw [scan]
  split
  case h_1 h => rw [hd] at h; cases h
  case h_8 c' t' _ _ _ _ _ _ h =>
    rw [hd] at h
    cases h
    split
    · rename_i hn
      rcases Bool.or_eq_true_iff.1 hn with hn | hn
      · rw [eq_of_beq hn] at hc
        exact absurd hc.1 (by decide)
      · rw [hc.2] at hn
        cases hn
    · rfl
  all_goals
    rename_i h
    rw [hd] at h
    cases h
    exact absurd hc.1 (by decide)

/-! ## A string -/

theorem rest_scanString {t rest : List Char} (h : (Inside.scan t).rest = .ok rest) :
    (scanString t).rest = some rest := by
  unfold scanString
  split
  · rename_i f hf; rw [h] at hf; cases hf
  · rename_i r hr; rw [h] at hr; cases hr; rfl

theorem piece_scanString {t rest : List Char} (h : (Inside.scan t).rest = .ok rest)
    (hf : (Inside.scan t).readersFault = none) :
    (scanString t).piece = .string (.ok (String.ofList (Inside.scan t).chars)) := by
  unfold scanString
  split
  · rename_i f hf; rw [h] at hf; cases hf
  · simp only [hf]

theorem scan_string {level : Nat} {t : List Char} :
    (scan level ('"' :: t)).piece = (scanString t).piece
      ∧ (scan level ('"' :: t)).rest = (scanString t).rest := by
  have hd : dropSpace ('"' :: t) = '"' :: t := List.dropWhile_cons_of_neg (by decide)
  rw [scan]
  split
  case h_5 h =>
    rw [hd] at h
    cases h
    exact ⟨rfl, rfl⟩
  case h_8 hne _ _ h =>
    rw [hd] at h
    cases h
    exact absurd rfl hne
  all_goals
    rename_i h
    rw [hd] at h
    cases h

/-! ## A list with one item -/

theorem scanItems_single {level : Nat} {s r rest : List Char} (hr : (scan level s).rest = some r)
    (hd : dropSpace r = ']' :: rest) :
    (scanItems level s).piece = ([(scan level s).piece], none)
      ∧ (scanItems level s).rest = some rest := by
  rw [scanItems]
  split
  · rename_i h; rw [hr] at h; cases h
  · rename_i r' h
    rw [hr] at h
    cases h
    dsimp only
    split
    · rename_i rest' h
      rw [hd] at h
      cases h
      exact ⟨rfl, rfl⟩
    · rename_i h; rw [hd] at h; cases h
    · rename_i h; rw [hd] at h; cases h
    · rename_i hne _ _; exact absurd hd (hne rest)

theorem scan_list_single {level : Nat} {s t r rest : List Char} (hs : dropSpace s = '[' :: t)
    (hr : (scan (level + 1) (dropSpace t)).rest = some r) (hd : dropSpace r = ']' :: rest)
    (hne : dropSpace t ≠ []) (hclose : ∀ rest, dropSpace t ≠ ']' :: rest) :
    (scan level s).piece
        = .array (isTooDeep level) [(scan (level + 1) (dropSpace t)).piece] none
      ∧ (scan level s).rest = some rest := by
  obtain ⟨hp, hpr⟩ := scanItems_single hr hd
  rw [scan]
  split
  case h_6 t' h =>
    rw [hs] at h
    cases h
    dsimp only
    split
    · rename_i h; exact absurd h hne
    · rename_i h; exact absurd h (hclose _)
    · dsimp only
      rw [hp]
      exact ⟨rfl, hpr⟩
  case h_8 c' t' _ _ _ _ hne _ h =>
    rw [hs] at h
    cases h
    exact absurd rfl hne
  all_goals
    rename_i h
    rw [hs] at h
    cases h

/-! ## An object with one member -/

theorem scanMembers_single {level : Nat} {s n r rest : List Char} (hn : (scanName s).rest = some n)
    (hr : (scanMemberValue level n).rest = some r) (hd : dropSpace r = '\x7d' :: rest) :
    (scanMembers level s).piece
        = ([((scanName s).piece, (scanMemberValue level n).piece)], none)
      ∧ (scanMembers level s).rest = some rest := by
  rw [scanMembers]
  split
  · rename_i h; rw [hn] at h; cases h
  · rename_i n' h
    rw [hn] at h
    cases h
    dsimp only
    split
    · rename_i h; rw [hr] at h; cases h
    · rename_i r' h
      rw [hr] at h
      cases h
      split
      · rename_i rest' h
        rw [hd] at h
        cases h
        exact ⟨rfl, rfl⟩
      · rename_i h; rw [hd] at h; cases h
      · rename_i h; rw [hd] at h; cases h
      · rename_i hne _ _; exact absurd hd (hne rest)

theorem scan_object {level : Nat} {s t : List Char} (hs : dropSpace s = '\x7b' :: t)
    (hne : dropSpace t ≠ []) (hopen : ∀ rest, dropSpace t ≠ '\x7d' :: rest) :
    (scan level s).piece
        = .object (isTooDeep level) (scanMembers (level + 1) (dropSpace t)).piece.1
            (scanMembers (level + 1) (dropSpace t)).piece.2
      ∧ (scan level s).rest = (scanMembers (level + 1) (dropSpace t)).rest := by
  rw [scan]
  split
  case h_7 t' h =>
    rw [hs] at h
    cases h
    dsimp only
    split
    · rename_i h; exact absurd h hne
    · rename_i h; exact absurd h (hopen _)
    · exact ⟨rfl, rfl⟩
  case h_8 c' t' _ _ _ _ _ hne h =>
    rw [hs] at h
    cases h
    exact absurd rfl hne
  all_goals
    rename_i h
    rw [hs] at h
    cases h

theorem scan_object_single {level : Nat} {s t n r rest : List Char}
    (hs : dropSpace s = '\x7b' :: t) (hn : (scanName (dropSpace t)).rest = some n)
    (hr : (scanMemberValue (level + 1) n).rest = some r) (hd : dropSpace r = '\x7d' :: rest) :
    (scan level s).piece
        = .object (isTooDeep level)
            [((scanName (dropSpace t)).piece, (scanMemberValue (level + 1) n).piece)] none
      ∧ (scan level s).rest = some rest := by
  have hne : dropSpace t ≠ [] := fun h => by rw [h] at hn; cases hn
  have hopen : ∀ rest, dropSpace t ≠ '\x7d' :: rest := fun rest h => by rw [h] at hn; cases hn
  obtain ⟨hp, hpr⟩ := @scan_object level s t hs hne hopen
  obtain ⟨hm, hmr⟩ := scanMembers_single hn hr hd
  rw [hp, hpr, hm, hmr]
  exact ⟨rfl, rfl⟩

end Document

end QuerySql
