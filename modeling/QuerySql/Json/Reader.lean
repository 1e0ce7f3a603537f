import QuerySql.Json.Scan

/-!
# Reading JSON

`Json.read` takes a text to the value it writes. A value that is read weighs no more than the text
is long (`Json.weight_le_of_read`), so every string and name in it is shorter than the text.
-/

namespace QuerySql

namespace Document

/-- Succeeds where nothing but blanks follows the document. -/
def checkEnd (rest : Option (List Char)) : Except TextFault Unit :=
  if dropSpace (rest.getD []) = [] then .ok () else .error .trailingText

end Document

namespace Json

/-- The value that a text writes, or the first fault of the text. -/
def read (s : List Char) : Except TextFault Json := do
  let scanned := Document.scan 0 s
  let value ← scanned.piece.read
  Document.checkEnd scanned.rest
  return value

def read? (s : List Char) : Option Json := (read s).toOption

theorem read_string {t chars : List Char} (h : Inside.scan t = ⟨chars, none, .ok []⟩) :
    read ('"' :: t) = .ok (.string (String.ofList chars)) := by
  have hrest := Document.rest_scanString (congrArg Inside.rest h)
  have hpiece := Document.piece_scanString (congrArg Inside.rest h)
    (congrArg Inside.readersFault h)
  obtain ⟨hp, hr⟩ := @Document.scan_string 0 t
  rw [read, hp, hr, hrest, hpiece, h]
  rfl

theorem read_list_string {s t u r chars : List Char} (hs : Document.dropSpace s = '[' :: t)
    (ht : Document.dropSpace t = '"' :: u) (hu : Inside.scan u = ⟨chars, none, .ok r⟩)
    (hd : Document.dropSpace r = [']']) :
    read s = .ok (.array [.string (String.ofList chars)]) := by
  obtain ⟨hp, hpr⟩ := @Document.scan_string 1 u
  have hrest : (Document.scan 1 (Document.dropSpace t)).rest = some r := by
    rw [ht, hpr]
    exact Document.rest_scanString (congrArg Inside.rest hu)
  have hpiece : (Document.scan 1 (Document.dropSpace t)).piece
      = .string (.ok (String.ofList chars)) := by
    rw [ht, hp, Document.piece_scanString (congrArg Inside.rest hu)
      (congrArg Inside.readersFault hu), hu]
  obtain ⟨hl, hlr⟩ :=
    @Document.scan_list_single 0 s t r [] hs hrest hd (by simp [ht]) (by simp [ht])
  rw [read, hl, hlr, hpiece]
  rfl

theorem read_object_single {s t u n r chars : List Char} {v : Json}
    (hs : Document.dropSpace s = '\x7b' :: t) (ht : Document.dropSpace t = '"' :: u)
    (hname : Inside.scan u = ⟨chars, none, .ok n⟩)
    (hr : (Document.scanMemberValue 1 n).rest = some r)
    (hv : (Document.scanMemberValue 1 n).piece.read = .ok v)
    (hd : Document.dropSpace r = ['\x7d']) :
    read s = .ok (.object [(String.ofList chars, v)]) := by
  have hn : (Document.scanName (Document.dropSpace t)).rest = some n := by
    rw [ht]
    exact Document.rest_scanString (congrArg Inside.rest hname)
  have hp : (Document.scanName (Document.dropSpace t)).piece
      = .string (.ok (String.ofList chars)) := by
    rw [ht]
    refine (Document.piece_scanString (congrArg Inside.rest hname)
      (congrArg Inside.readersFault hname)).trans ?_
    rw [hname]
  obtain ⟨ho, hrest⟩ := @Document.scan_object_single 0 s t n r [] hs hn hr hd
  rw [read, ho, hrest, hp]
  simp only [Document.read, Document.readMembers, Document.memberName, hv]
  rfl

end Json

namespace Document

theorem weight_read_name {d : Document} {name : String} (h : memberName d = .ok name) :
    name.length ≤ weight d := by
  unfold memberName at h
  split at h
  · subst h; simp [weight]
  · cases h
  · cases h

/-! ### Documents that are read -/

variable {d name : Document} {items : List Document} {members : List (Document × Document)}
  {deep : Bool} {ending : Option Break} {v : Json}

theorem ended_eq_ok {fault : Break → TextFault} {u : Unit} (h : ended fault ending = .ok u) :
    ending = none := by
  cases ending with
  | none => rfl
  | some b => cases h

theorem exists_of_read_array (h : read (.array deep items ending) = .ok v) :
    ending = none ∧ ∃ values, readItems items = .ok values ∧ v = .array values := by
  rw [read] at h
  obtain ⟨-, -, h⟩ := exists_of_bind_eq_ok h
  obtain ⟨values, hv, h⟩ := exists_of_bind_eq_ok h
  obtain ⟨u, he, h⟩ := exists_of_bind_eq_ok h
  cases h
  exact ⟨ended_eq_ok he, values, hv, rfl⟩

theorem exists_of_read_object (h : read (.object deep members ending) = .ok v) :
    ending = none
      ∧ ∃ entries, readMembers members = .ok entries ∧ v = .object (Entries.ofList entries) := by
  rw [read] at h
  obtain ⟨-, -, h⟩ := exists_of_bind_eq_ok h
  obtain ⟨entries, hv, h⟩ := exists_of_bind_eq_ok h
  obtain ⟨u, he, h⟩ := exists_of_bind_eq_ok h
  cases h
  exact ⟨ended_eq_ok he, entries, hv, rfl⟩

theorem exists_of_readItems_cons {values : List Json} (h : readItems (d :: items) = .ok values) :
    ∃ v others, read d = .ok v ∧ readItems items = .ok others ∧ values = v :: others := by
  rw [readItems] at h
  obtain ⟨v, hv, h⟩ := exists_of_bind_eq_ok h
  obtain ⟨others, ho, h⟩ := exists_of_bind_eq_ok h
  cases h
  exact ⟨v, others, hv, ho, rfl⟩

theorem exists_of_readMembers_cons {entries : List (String × Json)}
    (h : readMembers ((name, d) :: members) = .ok entries) :
    ∃ n v others, memberName name = .ok n ∧ read d = .ok v ∧ readMembers members = .ok others
      ∧ entries = (n, v) :: others := by
  rw [readMembers] at h
  obtain ⟨n, hn, h⟩ := exists_of_bind_eq_ok h
  obtain ⟨v, hv, h⟩ := exists_of_bind_eq_ok h
  obtain ⟨others, ho, h⟩ := exists_of_bind_eq_ok h
  cases h
  exact ⟨n, v, others, hn, hv, ho, rfl⟩

/-! ### Weights -/

mutual

theorem weight_read_le : ∀ {d : Document} {v : Json}, read d = .ok v → v.weight ≤ weight d
  | null, _, h => by cases h; simp [Json.weight, weight]
  | bool _, _, h => by cases h; simp [Json.weight, weight]
  | number n, v, h => by
    cases n with
    | error f => cases h
    | ok n => cases h; simp [Json.weight, weight]
  | string s, v, h => by
    cases s with
    | error f => cases h
    | ok s => cases h; simp [Json.weight, weight]
  | array deep items ending, v, h => by
    obtain ⟨-, values, hv, rfl⟩ := exists_of_read_array h
    have := weight_readItems_le hv
    simp only [Json.weight, weight]; omega
  | object deep members ending, v, h => by
    obtain ⟨-, entries, he, rfl⟩ := exists_of_read_object h
    have := weight_readMembers_le he
    have := Json.weightOfEntries_ofList_le entries
    simp only [Json.weight, weight]; omega
  | broken _ _ _, _, h => by cases h

theorem weight_readItems_le : ∀ {items : List Document} {values : List Json},
    readItems items = .ok values → Json.weightOfItems values ≤ weightOfItems items
  | [], _, h => by cases h; simp [Json.weightOfItems]
  | d :: rest, values, h => by
    obtain ⟨v, others, hv, ho, rfl⟩ := exists_of_readItems_cons h
    have := weight_read_le hv
    have := weight_readItems_le ho
    simp only [Json.weightOfItems, weightOfItems]; omega

theorem weight_readMembers_le : ∀ {members : List (Document × Document)}
    {entries : List (String × Json)}, readMembers members = .ok entries →
      Json.weightOfEntries entries ≤ weightOfMembers members
  | [], _, h => by cases h; simp [Json.weightOfEntries]
  | (name, d) :: rest, entries, h => by
    obtain ⟨n, v, others, hn, hv, ho, rfl⟩ := exists_of_readMembers_cons h
    have := weight_read_name hn
    have := weight_read_le hv
    have := weight_readMembers_le ho
    simp only [Json.weightOfEntries, weightOfMembers]; omega

end

end Document

namespace Json

theorem exists_of_read {s : List Char} {v : Json} (h : read s = .ok v) :
    (Document.scan 0 s).piece.read = .ok v
      ∧ Document.dropSpace ((Document.scan 0 s).rest.getD []) = [] := by
  obtain ⟨w, hw, h⟩ := exists_of_bind_eq_ok h
  obtain ⟨u, hend, h⟩ := exists_of_bind_eq_ok h
  cases h
  refine ⟨hw, ?_⟩
  unfold Document.checkEnd at hend
  split at hend
  · assumption
  · cases hend

/-- A value weighs no more than the text it is read from is long. -/
theorem weight_le_of_read {s : List Char} {v : Json} (h : read s = .ok v) :
    v.weight ≤ s.length := by
  have := (Document.scan 0 s).fits
  have := Document.weight_read_le (exists_of_read h).1
  omega

theorem weight_le_of_read? {s : List Char} {v : Json} (h : read? s = some v) :
    v.weight ≤ s.length := by
  unfold read? at h
  cases hr : read s with
  | error f => simp [hr, Except.toOption] at h
  | ok w =>
    simp only [hr, Except.toOption, Option.some.injEq] at h
    subst h
    exact weight_le_of_read hr

end Json

end QuerySql
