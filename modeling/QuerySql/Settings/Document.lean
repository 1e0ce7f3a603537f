import QuerySql.Settings
import QuerySql.Toml.Document

/-!
# Settings in a document

The settings stand in one table of a TOML document, which may be absent; so may the limit in it.
The table may also be written as an array with the limit first. Other keys mean nothing here.
-/

namespace QuerySql.Settings

def tableName : String := "relquery"

def limitName : String := "default_limit"

/-- The settings with the limit that a value gives. -/
def ofLimit? : Toml.Node → Option Settings
  | .integer n =>
    if 0 ≤ n && n < UInt32.size then some ⟨UInt32.ofNat n.toNat⟩ else none
  | _ => none

def ofEntries? (entries : Toml.Table) : Option Settings :=
  match Entries.get? limitName entries with
  | none => some {}
  | some value => ofLimit? value

/-- The settings that a value holds. A date or a time is a table without a limit. -/
def ofNode? : Toml.Node → Option Settings
  | .table _ entries | .inline entries => ofEntries? entries
  | .array [] => some {}
  | .array (first :: _) => ofLimit? first
  | .moment => some {}
  | _ => none

def ofDocument (text : String) : Except Fault Settings :=
  match Toml.read? text with
  | none => .error .badDocument
  | some root =>
    match Entries.get? tableName root with
    | none => .ok {}
    | some node =>
      match ofNode? node with
      | some s => .ok s
      | none => .error .badDocument

/-- The settings of a file with the text given; there is no text where there is no file. -/
def ofFile (text : Option String) : Except Fault Settings :=
  match text with
  | none => .error .noDocument
  | some text => ofDocument text

end QuerySql.Settings
