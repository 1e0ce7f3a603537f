import QuerySql.Json.Decoder
import QuerySql.Schema.Basic

/-!
# Schemas as JSON

A schema is written as an object. What is not declared, and an absence of relations, is left out;
the columns are always there. It is read from an object with the same names, or from a list of the
fields in the order of `Schema.shape`; only the table must be there.
-/

namespace QuerySql

namespace RelationKind

def name : RelationKind → String
  | oneToMany => "one-to-many"
  | manyToOne => "many-to-one"

def ofName (s : String) : Decode.Result RelationKind :=
  if s = oneToMany.name then .ok oneToMany
  else if s = manyToOne.name then .ok manyToOne
  else .error (.unknownChoice s [oneToMany.name, manyToOne.name])

/-- Succeeds where nothing stands beside the name of a kind. -/
def noContent : Document → Decode.Result Unit
  | .null => .ok ()
  | d => Decode.unexpected d .noContent

/-- A kind in a text: a string, or an object with one member whose value is null. -/
def decodeText : Document → Decode.Result RelationKind
  | .string s => do ofName (← Decode.lift s)
  | .object tooDeep members ending => do
    Decode.lift (Document.checkDepth tooDeep)
    match members, ending with
    | [], some .endOfText => .error (.text .unfinishedObject)
    | [], _ => .error (.text .expectedValue)
    | (first, content) :: rest, ending =>
      let kind ← ofName (← Decode.lift (Document.memberName first))
      noContent content
      match rest, ending with
      | [], none => .ok kind
      | [], some .endOfText => .error (.text .unfinishedObject)
      | _, _ => .error (.text .expectedValue)
  | .broken none reading _ | .broken (some '"') reading _ | .broken (some 'n') reading _ =>
    .error (.text reading)
  | _ => .error (.text .expectedValue)

def decodeValue : Document → Decode.Result RelationKind
  | .string s => do ofName (← Decode.lift s)
  | .object _ [(first, content)] _ => do
    let kind ← ofName (← Decode.lift (Document.memberName first))
    noContent content
    return kind
  | .object _ _ _ => .error .notOneMember
  | d => Decode.unexpected d .textOrObject

def decode : Source → Document → Decode.Result RelationKind
  | .text => decodeText
  | .value => decodeValue

end RelationKind

namespace Schema

/-! ## Writing -/

def columnToJson (name : String) : Json := .object [("name", .string name)]

def optionalEntry (name : String) (value : Option String) : List (String × Json) :=
  match value with
  | some s => [(name, .string s)]
  | none => []

mutual

def toJson : Schema → Json
  | ⟨table, kind, referencedTable, referencedColumn, primaryColumn, columns, relations⟩ =>
    .object ([("tableName", .string table)]
      ++ optionalEntry "type" (kind.map RelationKind.name)
      ++ optionalEntry "referencedTableName" referencedTable
      ++ optionalEntry "referencedColumn" referencedColumn
      ++ optionalEntry "primaryColumn" primaryColumn
      ++ [("columns", .array (columns.map columnToJson))]
      ++ if relations.isEmpty then [] else [("relations", .object (relationsToJson relations))])

def relationsToJson : List (String × Schema) → List (String × Json)
  | [] => []
  | (name, s) :: rest => (name, toJson s) :: relationsToJson rest

end

/-! ## Reading -/

def columnShape : Decode.Shape := ⟨"Column", ["name"], true⟩

def decodeColumn (source : Source) (d : Document) : Decode.Result String := do
  let name ← Decode.record source columnShape none d fun name field x _ =>
    Decode.once field name (Decode.string x)
  match name with
  | some name => .ok name
  | none => .error (.missingField "name")

def shape : Decode.Shape where
  name := "RelationMetadata"
  fields := ["tableName", "type", "referencedTableName", "referencedColumn", "primaryColumn",
    "columns", "relations"]
  firstRequired := true

/-- The fields of a schema that have been read. -/
structure Draft where
  table : Option String := none
  kind : Option (Option RelationKind) := none
  referencedTable : Option (Option String) := none
  referencedColumn : Option (Option String) := none
  primaryColumn : Option (Option String) := none
  columns : Option (List String) := none
  relations : Option (List (String × Schema)) := none

/-- The schema of the fields; without a table there is none. -/
def Draft.finish (draft : Draft) : Decode.Result Schema :=
  match draft.table with
  | none => .error (.missingField "tableName")
  | some table => .ok {
      table
      kind := draft.kind.join
      referencedTable := draft.referencedTable.join
      referencedColumn := draft.referencedColumn.join
      primaryColumn := draft.primaryColumn.join
      columns := draft.columns.getD []
      relations := SortedEntries.ofList (draft.relations.getD []) }

/-- The draft with one more field. The relations are decoded by the decoder given. -/
def Draft.put (draft : Draft) (source : Source) (field : String) (x : Document)
    (relation : (y : Document) → sizeOf y < sizeOf x → Decode.Result Schema) :
    Decode.Result Draft := do
  match field with
  | "tableName" =>
    return { draft with table := ← Decode.once field draft.table (Decode.string x) }
  | "type" =>
    return { draft with
      kind := ← Decode.once field draft.kind
        (Decode.optional (RelationKind.decode source) x) }
  | "referencedTableName" =>
    return { draft with
      referencedTable := ← Decode.once field draft.referencedTable
        (Decode.optional Decode.string x) }
  | "referencedColumn" =>
    return { draft with
      referencedColumn := ← Decode.once field draft.referencedColumn
        (Decode.optional Decode.string x) }
  | "primaryColumn" =>
    return { draft with
      primaryColumn := ← Decode.once field draft.primaryColumn
        (Decode.optional Decode.string x) }
  | "columns" =>
    return { draft with
      columns := ← Decode.once field draft.columns
        (Decode.items x fun y _ => decodeColumn source y) }
  | "relations" =>
    return { draft with
      relations := ← Decode.once field draft.relations (Decode.entries x relation) }
  | _ => return draft

def decode (source : Source) (d : Document) : Decode.Result Schema := do
  let draft ← Decode.record source shape ({} : Draft) d fun draft field x hx =>
    draft.put source field x fun y hy =>
      have : sizeOf y < sizeOf d := Nat.lt_trans hy hx
      decode source y
  draft.finish
termination_by sizeOf d

def ofText (s : String) : Decode.Result Schema := Decode.ofText (decode .text) s

def ofJson (v : Json) : Decode.Result Schema := Decode.ofJson (decode .value) v

end Schema

end QuerySql
