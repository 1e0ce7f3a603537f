import QuerySql.Json.Decoder
import QuerySql.Request.Basic

/-!
# Requests as JSON

A request is written as an object. The trees are always there; the filter and the fields of the
page are left out where nothing is asked. It is read from an object with the same names, or from a
list of the fields in the order of `Request.shape`, and every field may be missing. A tree keeps
the first place and the last value of a repeated name.
-/

namespace QuerySql

/-- How the leaves of a tree stand in JSON. -/
structure LeafForm (α : Type) where
  /-- What a fault calls a leaf or a tree. -/
  name : String
  toJson : α → Json
  ofDocument? : Document → Option α

def Selection.form : LeafForm Bool where
  name := "Selection"
  toJson := .bool
  ofDocument?
    | .bool on => some on
    | _ => none

def Sorting.form : LeafForm String where
  name := "OrderBy"
  toJson := .string
  ofDocument?
    | .string (.ok text) => some text
    | _ => none

namespace Asked

variable {α : Type} (form : LeafForm α)

mutual

def toJson : Asked α → Json
  | leaf value => form.toJson value
  | tree entries => .object (entriesToJson entries)

def entriesToJson : List (String × Asked α) → List (String × Json)
  | [] => []
  | (name, a) :: rest => (name, toJson a) :: entriesToJson rest

end

mutual

/-- What a document without faults holds: an object is a tree, anything else may be a leaf. -/
def ofDocument? : Document → Option (Asked α)
  | .object _ members _ => (ofMembers? members).map fun entries => tree (Entries.ofList entries)
  | d => (form.ofDocument? d).map leaf

def ofMembers? : List (Document × Document) → Option (List (String × Asked α))
  | [] => some []
  | (.string (.ok name), d) :: rest => do
    let a ← ofDocument? d
    return (name, a) :: (← ofMembers? rest)
  | _ :: _ => none

end

/-- A leaf or a tree. A fault anywhere in it comes before its form. -/
def decode (d : Document) : Decode.Result (Asked α) := do
  let _ ← Decode.lift d.read
  match ofDocument? form d with
  | some a => .ok a
  | none => .error (.noForm form.name)

def decodeTree (d : Document) : Decode.Result (AskedTree α) :=
  Entries.ofList <$> Decode.entries d fun x _ => decode form x

end Asked

abbrev Selection.decodeTree (d : Document) : Decode.Result SelectionTree :=
  Asked.decodeTree form d

abbrev Sorting.decodeTree (d : Document) : Decode.Result SortingTree := Asked.decodeTree form d

namespace Request

/-! ## Writing -/

def integerEntry (name : String) (value : Option Int64) : List (String × Json) :=
  match value with
  | some n => [(name, .number (.int n.toInt))]
  | none => []

def toJson (r : Request) : Json :=
  .object ([("relations", .object (Asked.entriesToJson Selection.form r.relations)),
      ("select", .object (Asked.entriesToJson Selection.form r.select)),
      ("groups", .object (Asked.entriesToJson Selection.form r.groups)),
      ("orders", .object (Asked.entriesToJson Sorting.form r.orders))]
    ++ (match r.filter with
      | some v => [("where", v)]
      | none => [])
    ++ integerEntry "skip" r.skip
    ++ integerEntry "offset" r.offset
    ++ integerEntry "take" r.take
    ++ integerEntry "limit" r.limit
    ++ integerEntry "page" r.page)

/-! ## Reading -/

def shape : Decode.Shape where
  name := "Query"
  fields := ["relations", "select", "groups", "orders", "where", "skip", "offset", "take", "limit",
    "page"]
  firstRequired := false

/-- The fields of a request that have been read. -/
structure Draft where
  relations : Option SelectionTree := none
  select : Option SelectionTree := none
  groups : Option SelectionTree := none
  orders : Option SortingTree := none
  filter : Option (Option Json) := none
  skip : Option (Option Int64) := none
  offset : Option (Option Int64) := none
  take : Option (Option Int64) := none
  limit : Option (Option Int64) := none
  page : Option (Option Int64) := none

/-- The request of the fields; what is missing asks nothing. -/
def Draft.finish (d : Draft) : Request where
  relations := d.relations.getD []
  select := d.select.getD []
  groups := d.groups.getD []
  orders := d.orders.getD []
  filter := d.filter.join
  skip := d.skip.join
  offset := d.offset.join
  take := d.take.join
  limit := d.limit.join
  page := d.page.join

def Draft.put (draft : Draft) (field : String) (x : Document) : Decode.Result Draft := do
  match field with
  | "relations" =>
    return { draft with
      relations := ← Decode.once field draft.relations (Selection.decodeTree x) }
  | "select" =>
    return { draft with select := ← Decode.once field draft.select (Selection.decodeTree x) }
  | "groups" =>
    return { draft with groups := ← Decode.once field draft.groups (Selection.decodeTree x) }
  | "orders" =>
    return { draft with orders := ← Decode.once field draft.orders (Sorting.decodeTree x) }
  | "where" =>
    return { draft with
      filter := ← Decode.once field draft.filter
        (Decode.optional (fun y => Decode.lift y.read) x) }
  | "skip" =>
    return { draft with skip := ← Decode.once field draft.skip (Decode.optional Decode.int64 x) }
  | "offset" =>
    return { draft with
      offset := ← Decode.once field draft.offset (Decode.optional Decode.int64 x) }
  | "take" =>
    return { draft with take := ← Decode.once field draft.take (Decode.optional Decode.int64 x) }
  | "limit" =>
    return { draft with limit := ← Decode.once field draft.limit (Decode.optional Decode.int64 x) }
  | "page" =>
    return { draft with page := ← Decode.once field draft.page (Decode.optional Decode.int64 x) }
  | _ => return draft

def decode (source : Source) (d : Document) : Decode.Result Request :=
  Draft.finish <$> Decode.record source shape ({} : Draft) d fun draft field x _ =>
    draft.put field x

def ofText (s : String) : Decode.Result Request := Decode.ofText (decode .text) s

def ofJson (v : Json) : Decode.Result Request := Decode.ofJson (decode .value) v

end Request

end QuerySql
