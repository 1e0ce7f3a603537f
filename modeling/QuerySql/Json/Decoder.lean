import QuerySql.Json.Document
import QuerySql.Json.Reader
import QuerySql.Json.Writer
import QuerySql.Text.Quoted

/-!
# Decoding documents

A decoder takes a document to a domain value and goes through it in order, so that the first fault
that concerns it is the one reported. A record may be written as an object with its fields by name
or as a list of its fields in order. `Decode.record`, `Decode.entries` and `Decode.items` hand the
parts of a document to a decoder of parts together with the fact that they are smaller than the
document, so that a decoder may call itself on them.
-/

namespace QuerySql

/-- What stands in a document where something else was expected. -/
inductive Found where
  | null
  | bool (b : Bool)
  | number (n : Number)
  | string (s : String)
  | list
  | object
  deriving DecidableEq, Repr

inductive Expected where
  | text
  | integer
  | list
  | object
  /-- A record of the name given. -/
  | record (name : String)
  /-- Nothing beside the name of a choice. -/
  | noContent
  /-- A choice by name or as an object. -/
  | textOrObject
  deriving DecidableEq, Repr

/-- Why a document is not what a decoder expects. -/
inductive DecodeFault where
  | text (fault : TextFault)
  | wrongType (found : Found) (expected : Expected)
  /-- An integer beyond 64 signed bits. -/
  | tooLarge (n : Int)
  /-- An object that should hold one member and does not. -/
  | notOneMember
  | missingField (name : String)
  | duplicateField (name : String)
  /-- A list that ends before a required field of the record of that name and size. -/
  | missingItem (record : String) (size : Nat)
  /-- A list of that length with more items than the record has fields. -/
  | tooManyItems (length : Nat)
  | unknownChoice (name : String) (choices : List String)
  /-- A value that is none of the forms of the type of that name. -/
  | noForm (name : String)
  deriving DecidableEq, Repr

def Found.message : Found → String
  | null => "null"
  | bool true => "boolean `true`"
  | bool false => "boolean `false`"
  | number (.int n) => "integer `" ++ (Number.int n).text ++ "`"
  | number (.float x) => "floating point `" ++ (Number.float x).text ++ "`"
  | string s => "string " ++ Text.quoted s
  | list => "sequence"
  | object => "map"

def Expected.message : Expected → String
  | text => "a string"
  | integer => "i64"
  | list => "a sequence"
  | object => "a map"
  | record name => "struct " ++ name
  | noContent => "unit"
  | textOrObject => "string or map"

/-- How many things, with the noun in its number. -/
def countOf (n : Nat) (noun : String) : String :=
  (Number.int n).text ++ " " ++ noun ++ (if n = 1 then "" else "s")

def DecodeFault.message : DecodeFault → String
  | text f => f.message
  | wrongType found expected =>
    "invalid type: " ++ found.message ++ ", expected " ++ expected.message
  | tooLarge n => "invalid value: integer `" ++ (Number.int n).text ++ "`, expected i64"
  | notOneMember => "invalid value: map, expected map with a single key"
  | missingField name => "missing field `" ++ name ++ "`"
  | duplicateField name => "duplicate field `" ++ name ++ "`"
  | missingItem record size =>
    "invalid length 0, expected struct " ++ record ++ " with " ++ countOf size "element"
  | tooManyItems length =>
    "invalid length " ++ (Number.int length).text ++ ", expected fewer elements in array"
  | unknownChoice name choices =>
    "unknown variant `" ++ name ++ "`, expected "
      ++ String.intercalate " or " (choices.map fun c => "`" ++ c ++ "`")
  | noForm name => "data did not match any variant of untagged enum " ++ name

def DecodeFault.report (f : DecodeFault) : String := "JSON error: " ++ f.message

/-- Where a document comes from: in a few places a text and a value fail differently. -/
inductive Source where
  | text
  | value
  deriving DecidableEq, Repr

namespace Decode

abbrev Result (α : Type) := Except DecodeFault α

def lift {α : Type} (r : Except TextFault α) : Result α := r.mapError .text

/-- What stands in the document, or the fault that a reader meets at once. -/
def found : Document → Result Found
  | .null => .ok .null
  | .bool b => .ok (.bool b)
  | .number n => lift (n.map .number)
  | .string s => lift (s.map .string)
  | .array _ _ _ => .ok .list
  | .object _ _ _ => .ok .object
  | .broken _ reading _ => .error (.text reading)

def unexpected {α : Type} (d : Document) (expected : Expected) : Result α := do
  let found ← found d
  .error (.wrongType found expected)

def string : Document → Result String
  | .string s => lift s
  | d => unexpected d .text

def int64 : Document → Result Int64
  | .number n => do
    match ← lift n with
    | .int i =>
      if Int64.minValue.toInt ≤ i && i ≤ Int64.maxValue.toInt then .ok (Int64.ofInt i)
      else .error (.tooLarge i)
    | .float x => .error (.wrongType (.number (.float x)) .integer)
  | d => unexpected d .integer

/-- Nothing for null, and else what the decoder gives. -/
def optional {α : Type} (decode : Document → Result α) : Document → Result (Option α)
  | .null => .ok none
  | d => some <$> decode d

theorem sizeOf_item_lt {d : Document} {deep : Bool} {items : List Document} {ending : Option Break}
    (h : d ∈ items) : sizeOf d < sizeOf (Document.array deep items ending) := by
  have := List.sizeOf_lt_of_mem h
  simp only [Document.array.sizeOf_spec]
  omega

theorem sizeOf_member_lt {m : Document × Document} {deep : Bool}
    {members : List (Document × Document)} {ending : Option Break} (h : m ∈ members) :
    sizeOf m.2 < sizeOf (Document.object deep members ending) := by
  have := List.sizeOf_lt_of_mem h
  obtain ⟨n, v⟩ := m
  simp only [Document.object.sizeOf_spec, Prod.mk.sizeOf_spec] at *
  omega

def items {α : Type} (d : Document) (decode : (x : Document) → sizeOf x < sizeOf d → Result α) :
    Result (List α) :=
  match d with
  | .array tooDeep xs ending => do
    lift (Document.checkDepth tooDeep)
    let values ← xs.attach.mapM fun x => decode x.1 (sizeOf_item_lt x.2)
    lift (Document.ended Break.inList ending)
    return values
  | d => unexpected d .list

def entries {α : Type} (d : Document) (decode : (x : Document) → sizeOf x < sizeOf d → Result α) :
    Result (List (String × α)) :=
  match d with
  | .object tooDeep ms ending => do
    lift (Document.checkDepth tooDeep)
    let values ← ms.attach.mapM fun m => do
      let name ← lift (Document.memberName m.1.1)
      let value ← decode m.1.2 (sizeOf_member_lt m.2)
      return (name, value)
    lift (Document.ended Break.inObject ending)
    return values
  | d => unexpected d .object

theorem exists_of_map_eq_ok {α β : Type} {r : Result α} {f : α → β} {b : β}
    (h : f <$> r = .ok b) : ∃ a, r = .ok a ∧ f a = b := by
  cases r with
  | error e => cases h
  | ok a => exact ⟨a, rfl, Except.ok.inj h⟩

theorem exists_of_mem_mapM {α β : Type} {f : α → Result β} {xs : List α} {ys : List β} {y : β}
    (h : xs.mapM f = .ok ys) (hy : y ∈ ys) : ∃ x ∈ xs, f x = .ok y := by
  induction xs generalizing ys with
  | nil => cases h; cases hy
  | cons x xs ih =>
    rw [List.mapM_cons] at h
    obtain ⟨z, hz, h⟩ := exists_of_bind_eq_ok h
    obtain ⟨zs, hzs, h⟩ := exists_of_bind_eq_ok h
    cases h
    rcases List.mem_cons.1 hy with rfl | hy
    · exact ⟨x, List.mem_cons_self, hz⟩
    · obtain ⟨w, hw, hwy⟩ := ih hzs hy
      exact ⟨w, List.mem_cons_of_mem _ hw, hwy⟩

theorem exists_of_mem_entries {α : Type} {d : Document}
    {decode : (x : Document) → sizeOf x < sizeOf d → Result α} {values : List (String × α)}
    {e : String × α} (h : entries d decode = .ok values) (he : e ∈ values) :
    ∃ x hx, decode x hx = .ok e.2 := by
  unfold entries at h
  split at h
  · obtain ⟨-, -, h⟩ := exists_of_bind_eq_ok h
    obtain ⟨read, hread, h⟩ := exists_of_bind_eq_ok h
    obtain ⟨-, -, h⟩ := exists_of_bind_eq_ok h
    cases h
    obtain ⟨m, -, hm⟩ := exists_of_mem_mapM hread he
    obtain ⟨name, -, hm⟩ := exists_of_bind_eq_ok hm
    obtain ⟨v, hv, hm⟩ := exists_of_bind_eq_ok hm
    cases hm
    exact ⟨_, _, hv⟩
  · obtain ⟨f, -, h⟩ := exists_of_bind_eq_ok h
    cases h

/-- The names of a record's fields, in order. -/
structure Shape where
  name : String
  fields : List String
  /-- Whether the first field must be there. -/
  firstRequired : Bool

/-- Succeeds where a list with `count` items has no more than the fields of the record, and ends as
it should. Behind the last field a text must close the list at once. -/
def checkItems (source : Source) (shape : Shape) (count : Nat) (ending : Option Break) :
    Result Unit :=
  if count < shape.fields.length then do
    lift (Document.ended Break.inList ending)
    if count = 0 && shape.firstRequired then
      .error (.missingItem shape.name shape.fields.length)
    else .ok ()
  else if count = shape.fields.length then
    match ending with
    | none => .ok ()
    | some .endOfText => .error (.text .unfinishedList)
    | some .bracketAfterComma => .error (.text .trailingComma)
    | some .noComma | some .endAfterComma => .error (.text .trailingText)
  else
    match source with
    | .text => .error (.text .trailingText)
    | .value => .error (.tooManyItems count)

/-- The state that the fields of a record lead to, from `start` on. `step` takes one field by name,
and refuses one that was there before; a member of another name is passed over. -/
def record {δ : Type} (source : Source) (shape : Shape) (start : δ) (d : Document)
    (step : δ → String → (x : Document) → sizeOf x < sizeOf d → Result δ) : Result δ :=
  match d with
  | .object tooDeep ms ending => do
    lift (Document.checkDepth tooDeep)
    let state ← ms.attach.foldlM (fun state m => do
      let name ← lift (Document.memberName m.1.1)
      if name ∈ shape.fields then step state name m.1.2 (sizeOf_member_lt m.2)
      else do
        lift (Document.pass m.1.2)
        return state) start
    lift (Document.ended Break.inObject ending)
    return state
  | .array tooDeep xs ending => do
    lift (Document.checkDepth tooDeep)
    let state ← (xs.attach.zip shape.fields).foldlM
      (fun state p => step state p.2 p.1.1 (sizeOf_item_lt p.1.2)) start
    checkItems source shape xs.length ending
    return state
  | d => unexpected d (.record shape.name)

/-- A field that has not been there before. -/
def once {α : Type} (name : String) (before : Option α) (value : Result α) : Result (Option α) :=
  if before.isSome then .error (.duplicateField name) else some <$> value

def ofText {α : Type} (decode : Document → Result α) (s : String) : Result α := do
  let scanned := Document.scan 0 s.toList
  let value ← decode scanned.piece
  lift (Document.checkEnd scanned.rest)
  return value

def ofJson {α : Type} (decode : Document → Result α) (v : Json) : Result α :=
  decode (Document.ofJson v)

end Decode

end QuerySql
