import QuerySql.Toml.Scalar

/-!
# TOML documents

A document is a sequence of lines: keys with values, headers, comments. Values nest below a limit.
`Toml.read?` gives the table that a document describes, if it is one.
-/

namespace QuerySql.Toml

/-- The items of an array behind its opening bracket; a comma may follow the last one. -/
def arrayItems (item : Scan Node) : (most : Nat) → Scan (List Node)
  | 0, _ => none
  | most + 1, s =>
    match skipGaps s with
    | ']' :: rest => some ([], rest)
    | t => do
      let (first, rest) ← item t
      match skipGaps rest with
      | ',' :: rest =>
        let (others, rest) ← arrayItems item most rest
        return (first :: others, rest)
      | ']' :: rest => return ([first], rest)
      | _ => none

def assignment (item : Scan Node) : Scan ((List String × String) × Node) := fun s => do
  let (key, rest) ← key s
  let (_, rest) ← char '=' rest
  let (value, rest) ← item (skipBlanks rest)
  return ((key, value), rest)

/-- The entries of a table in braces, with at least one, on top of those before. -/
def inlineEntries (item : Scan Node) : (most : Nat) → Table → Scan Table
  | 0, _, _ => none
  | most + 1, t, s => do
    let (((path, name), value), rest) ← assignment item s
    let t ← t.assign? path name value
    match skipBlanks rest with
    | ',' :: rest => inlineEntries item most t rest
    | '\x7d' :: rest => return (t, rest)
    | _ => none

def word (w : List Char) (s : List Char) : Option (List Char) :=
  if w.isPrefixOf s then some (s.drop w.length) else none

/-- A value in which arrays and inline tables nest at most `room` deep. -/
def value (room : Nat) : Scan Node := fun s =>
  match s with
  | '"' :: _ | '\'' :: _ => (string s).map fun (_, rest) => (.scalar, rest)
  | 't' :: _ => (word ['t', 'r', 'u', 'e'] s).map fun rest => (.scalar, rest)
  | 'f' :: _ => (word ['f', 'a', 'l', 's', 'e'] s).map fun rest => (.scalar, rest)
  | '[' :: rest =>
    match room with
    | 0 => none
    | room + 1 => (arrayItems (value room) rest.length rest).map fun (items, rest) =>
      (.array items, rest)
  | '\x7b' :: rest =>
    match room, skipBlanks rest with
    | 0, _ => none
    | _ + 1, '\x7d' :: rest => some (.inline [], rest)
    | room + 1, t => (inlineEntries (value room) t.length [] t).map fun (entries, rest) =>
      (.inline entries, rest)
  | _ => number s

/-- The table that the lines being read add to. -/
structure Current where
  /-- The header, and whether it is one of a list of tables; none before the first header. -/
  header : Option (Bool × List String × String)
  entries : Table

/-- The document so far without the current table, and the current table. -/
structure State where
  root : Table
  current : Current

namespace State

/-- The document with the current table in its place. -/
def close (s : State) : Option Table :=
  match s.current.header with
  | none => some s.current.entries
  | some (false, path, name) => s.root.closeTable? path name s.current.entries
  | some (true, path, name) => s.root.closeTables? path name s.current.entries

def open? (s : State) (list : Bool) (path : List String) (name : String) : Option State := do
  let root ← s.close
  if list then
    let root ← root.openTables? path name
    return ⟨root, some (true, path, name), []⟩
  else
    let (root, entries) ← root.openTable? path name
    return ⟨root, some (false, path, name), entries⟩

def assign? (s : State) (path : List String) (name : String) (value : Node) : Option State := do
  let entries ← s.current.entries.assign? path name value
  return { s with current := { s.current with entries } }

end State

def header : Scan (Bool × List String × String)
  | '[' :: '[' :: rest => do
    let ((path, name), rest) ← key rest
    let (_, rest) ← char ']' rest
    let (_, rest) ← char ']' rest
    return ((true, path, name), rest)
  | '[' :: rest => do
    let ((path, name), rest) ← key rest
    let (_, rest) ← char ']' rest
    return ((false, path, name), rest)
  | _ => none

def line (state : State) (s : List Char) : Option (State × List Char) :=
  match s with
  | '[' :: _ => do
    let ((list, path, name), rest) ← header s
    let rest ← lineEnd? rest
    let state ← state.open? list path name
    return (state, rest)
  | '#' :: _ | '\n' :: _ | '\r' :: _ => do
    let rest ← lineEnd? s
    return (state, rest)
  | _ => do
    let (((path, name), value), rest) ← assignment (value (nestingLimit - 1)) s
    let rest ← lineEnd? rest
    let state ← state.assign? path name value
    return (state, rest)

def lines : (most : Nat) → State → List Char → Option State
  | 0, state, s => if (skipBlanks s).isEmpty then some state else none
  | most + 1, state, s =>
    match skipBlanks s with
    | [] => some state
    | t => do
      let (state, rest) ← line state t
      lines most state rest

/-- The text without the mark of its byte order. -/
def dropByteOrderMark (s : List Char) : List Char :=
  match s with
  | c :: rest => if c.toNat == 0xFEFF then rest else s
  | [] => []

def read? (text : String) : Option Table := do
  let s := dropByteOrderMark text.toList
  let state ← lines s.length ⟨[], none, []⟩ s
  state.close

end QuerySql.Toml
