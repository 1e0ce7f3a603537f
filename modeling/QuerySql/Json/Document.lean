import QuerySql.Json.Basic
import QuerySql.Json.Fault

/-!
# JSON documents

A document is a JSON text taken apart, with its faults at the places where they stand. What a
fault means depends on who meets it: a reader of the whole value minds a number out of range, one
that passes over the value does not; a decoder that expects a fixed set of members meets a repeated
one before it meets a fault behind it. So taking apart and decoding are two steps, and a decoder
that goes through the document in order reports the first fault that concerns it.

`Document.read` is the plain reader: every fault concerns it, and a repeated name keeps its first
place and its last value. `Document.pass` is the reader that only passes over a value.
-/

namespace QuerySql

/-- How a list or an object ends that does not end with its bracket. -/
inductive Break where
  /-- The text ends where a bracket or a comma should stand. -/
  | endOfText
  /-- Something else stands where a bracket or a comma should. -/
  | noComma
  /-- A bracket follows a comma. -/
  | bracketAfterComma
  /-- The text ends behind a comma. -/
  | endAfterComma
  deriving DecidableEq, Repr

namespace Break

/-- Why a list does not end as it should, for a reader. -/
def inList : Break → TextFault
  | .endOfText => .unfinishedList
  | .noComma => .expectedCommaOrBracket
  | .bracketAfterComma => .trailingComma
  | .endAfterComma => .unfinishedValue

def inObject : Break → TextFault
  | .endOfText => .unfinishedObject
  | .noComma => .expectedCommaOrBrace
  | .bracketAfterComma => .trailingComma
  | .endAfterComma => .unfinishedValue

/-- Why a list does not end as it should, when it is passed over. -/
def inPassedList : Break → TextFault
  | .bracketAfterComma => .expectedValue
  | b => inList b

def inPassedObject : Break → TextFault
  | .bracketAfterComma => .expectedName
  | .endAfterComma => .unfinishedObject
  | b => inObject b

end Break

/-- A JSON text taken apart. -/
inductive Document where
  | null
  | bool (b : Bool)
  | number (n : Except TextFault Number)
  | string (s : Except TextFault String)
  /-- The items, the last of which may be broken. -/
  | array (tooDeep : Bool) (items : List Document) (ending : Option Break)
  /-- The names and values, the last of which may be broken; a name is a string or broken. -/
  | object (tooDeep : Bool) (members : List (Document × Document)) (ending : Option Break)
  /-- Text that is no value: its first character, the fault that a reader meets, and the one that
  is met when the value is only passed over. -/
  | broken (first : Option Char) (reading passing : TextFault)

namespace Document

/-- The nesting of lists and objects at which they are too deep to read. -/
def depthLimit : Nat := 128

mutual

/-- A size that bounds the weight of the value that the document holds. -/
def weight : Document → Nat
  | null | bool _ | number _ | string (.error _) => 1
  | string (.ok s) => s.length + 1
  | array _ items _ => weightOfItems items + 1
  | object _ members _ => weightOfMembers members + 1
  | broken _ _ _ => 0

def weightOfItems : List Document → Nat
  | [] => 0
  | d :: rest => weight d + weightOfItems rest

def weightOfMembers : List (Document × Document) → Nat
  | [] => 0
  | (name, d) :: rest => weight name + weight d + weightOfMembers rest

end

/-- Succeeds where the list or object ends with its bracket. -/
def ended (fault : Break → TextFault) : Option Break → Except TextFault Unit
  | none => .ok ()
  | some b => .error (fault b)

def memberName : Document → Except TextFault String
  | string s => s
  | broken _ reading _ => .error reading
  | _ => .error .expectedName

def passName : Document → Except TextFault Unit
  | string _ => .ok ()
  | broken _ _ passing => .error passing
  | _ => .error .expectedName

mutual

/-- Passes over a value: neither depth nor the range of a number is minded. -/
def pass : Document → Except TextFault Unit
  | null | bool _ | number _ | string _ => .ok ()
  | array _ items ending => do passItems items; ended Break.inPassedList ending
  | object _ members ending => do passMembers members; ended Break.inPassedObject ending
  | broken _ _ passing => .error passing

def passItems : List Document → Except TextFault Unit
  | [] => .ok ()
  | d :: rest => do pass d; passItems rest

def passMembers : List (Document × Document) → Except TextFault Unit
  | [] => .ok ()
  | (name, d) :: rest => do passName name; pass d; passMembers rest

end

def checkDepth (tooDeep : Bool) : Except TextFault Unit :=
  if tooDeep then .error .tooDeep else .ok ()

mutual

/-- The value that the document holds, or the first fault. -/
def read : Document → Except TextFault Json
  | null => .ok .null
  | bool b => .ok (.bool b)
  | number n => n.map .number
  | string s => s.map .string
  | array tooDeep items ending => do
    checkDepth tooDeep
    let values ← readItems items
    ended Break.inList ending
    return .array values
  | object tooDeep members ending => do
    checkDepth tooDeep
    let entries ← readMembers members
    ended Break.inObject ending
    return .object (Entries.ofList entries)
  | broken _ reading _ => .error reading

def readItems : List Document → Except TextFault (List Json)
  | [] => .ok []
  | d :: rest => do
    let value ← read d
    return value :: (← readItems rest)

def readMembers : List (Document × Document) → Except TextFault (List (String × Json))
  | [] => .ok []
  | (name, d) :: rest => do
    let name ← memberName name
    let value ← read d
    return (name, value) :: (← readMembers rest)

end

mutual

/-- The document of a value, which has no faults. -/
def ofJson : Json → Document
  | .null => null
  | .bool b => bool b
  | .number n => number (.ok n)
  | .string s => string (.ok s)
  | .array items => array false (ofItems items) none
  | .object entries => object false (ofEntries entries) none

def ofItems : List Json → List Document
  | [] => []
  | v :: rest => ofJson v :: ofItems rest

def ofEntries : List (String × Json) → List (Document × Document)
  | [] => []
  | (name, v) :: rest => (string (.ok name), ofJson v) :: ofEntries rest

end

end Document

end QuerySql
