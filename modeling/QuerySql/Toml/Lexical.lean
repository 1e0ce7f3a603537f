import QuerySql.Json.Inside

/-!
# The characters of TOML

Blanks, comments, strings and keys. A scanner takes something from the front of a text and gives
it with the rest, or nothing where the text does not go on that way.
-/

namespace QuerySql.Toml

/-- Takes something from the front of a text. -/
abbrev Scan (α : Type) := List Char → Option (α × List Char)

/-- As many as there are, up to `most`. -/
def many {α : Type} (scan : Scan α) : (most : Nat) → List Char → List α × List Char
  | 0, s => ([], s)
  | most + 1, s =>
    match scan s with
    | none => ([], s)
    | some (a, rest) =>
      let (others, rest) := many scan most rest
      (a :: others, rest)

/-! ## Blanks -/

def isBlank (c : Char) : Bool := c == ' ' || c == '\t'

def skipBlanks (s : List Char) : List Char := s.dropWhile isBlank

def newline? : List Char → Option (List Char)
  | '\n' :: rest => some rest
  | '\r' :: '\n' :: rest => some rest
  | _ => none

/-- Whether `c` may stand anywhere outside the special characters: no control but the tab. -/
def isPlain (c : Char) : Bool := c == '\t' || (0x20 ≤ c.toNat && c.toNat != 0x7F)

def skipComment (s : List Char) : List Char :=
  match s with
  | '#' :: rest => rest.dropWhile isPlain
  | _ => s

/-- The text behind the end of a line, before which only blanks and a comment may stand. -/
def lineEnd? (s : List Char) : Option (List Char) :=
  match skipComment (skipBlanks s) with
  | [] => some []
  | rest => newline? rest

/-- One blank, comment or end of a line. -/
def gap : Scan Unit := fun s =>
  match s with
  | [] => none
  | c :: rest =>
    if isBlank c then some ((), rest)
    else if c == '#' then some ((), rest.dropWhile isPlain)
    else (newline? s).map fun rest => ((), rest)

def skipGaps (s : List Char) : List Char := (many gap s.length s).2

/-! ## Strings -/

/-- A character by its code point in `count` hexadecimal digits. -/
def codePoint (count : Nat) : Scan Char := fun s =>
  let ds := (s.take count).filterMap Inside.hexValue?
  let n := ds.foldl (fun n d => 16 * n + d) 0
  if ds.length = count && n.isValidChar then some (Char.ofNat n, s.drop count) else none

def escape : Scan Char
  | 'b' :: rest => some ('\x08', rest)
  | 'f' :: rest => some ('\x0c', rest)
  | 'n' :: rest => some ('\n', rest)
  | 'r' :: rest => some ('\r', rest)
  | 't' :: rest => some ('\t', rest)
  | '"' :: rest => some ('"', rest)
  | '\\' :: rest => some ('\\', rest)
  | 'u' :: rest => codePoint 4 rest
  | 'U' :: rest => codePoint 8 rest
  | _ => none

def basicChar : Scan Char
  | '"' :: _ => none
  | '\\' :: rest => escape rest
  | c :: rest => if isPlain c then some (c, rest) else none
  | [] => none

/-- One character of a string without escapes on one line. -/
def literalChar : Scan Char
  | '\'' :: _ => none
  | c :: rest => if isPlain c then some (c, rest) else none
  | [] => none

/-- Characters up to a closing quote, behind the opening one. -/
def upTo (quote : Char) (char : Scan Char) : Scan String := fun s =>
  match many char s.length s with
  | (cs, c :: rest) => if c = quote then some (String.ofList cs, rest) else none
  | (_, []) => none

def lineString : Scan String
  | '"' :: rest => upTo '"' basicChar rest
  | '\'' :: rest => upTo '\'' literalChar rest
  | _ => none

/-- How many of the character the text starts with. -/
def runLength (c : Char) (s : List Char) : Nat := (s.takeWhile (· == c)).length

/-- The text behind an escaped end of line and the blanks and ends of lines that follow. -/
def escapedNewline? (s : List Char) : Option (List Char) :=
  (newline? (skipBlanks s)).map fun rest =>
    (many (fun t =>
      match t with
      | [] => none
      | c :: rest =>
        if isBlank c then some ((), rest) else (newline? t).map fun rest => ((), rest))
      rest.length rest).2

/-- One piece of a string over several lines: fewer than three quotes are part of it. -/
def longChar (quote : Char) (escapes : Bool) : Scan (List Char) := fun s =>
  match s with
  | [] => none
  | c :: rest =>
    if c = quote then if runLength quote s < 3 then some ([c], rest) else none
    else if c = '\\' && escapes then
      match escapedNewline? rest with
      | some rest => some ([], rest)
      | none => (escape rest).map fun (c, rest) => ([c], rest)
    else
      match newline? s with
      | some rest => some (['\n'], rest)
      | none => if isPlain c then some ([c], rest) else none

def skipNewline (s : List Char) : List Char := (newline? s).getD s

/-- A string over several lines behind its opening quotes. Up to two more quotes may stand before
the three closing ones. -/
def longString (quote : Char) (escapes : Bool) : Scan String := fun s =>
  let t := skipNewline s
  let (cs, rest) := many (longChar quote escapes) t.length t
  let run := min (runLength quote rest) 5
  if 3 ≤ run then
    some (String.ofList (cs.flatten ++ List.replicate (run - 3) quote), rest.drop run)
  else none

def string : Scan String := fun s =>
  match s with
  | '"' :: '"' :: '"' :: rest => longString '"' true rest
  | '\'' :: '\'' :: '\'' :: rest => longString '\'' false rest
  | _ => lineString s

/-! ## Keys -/

def isKeyChar (c : Char) : Bool := c.isAlphanum || c == '-' || c == '_'

/-- One part of a key, with blanks around it. -/
def keyPart : Scan String := fun s =>
  let t := skipBlanks s
  let part : Option (String × List Char) :=
    match t with
    | '"' :: _ | '\'' :: _ => lineString t
    | _ =>
      match t.takeWhile isKeyChar with
      | [] => none
      | name => some (String.ofList name, t.dropWhile isKeyChar)
  part.map fun (name, rest) => (name, skipBlanks rest)

def nextKeyPart : Scan String
  | '.' :: rest => keyPart rest
  | _ => none

def nestingLimit : Nat := 80

/-- A key: the parts before the last one, and the last. -/
def key : Scan (List String × String) := fun s => do
  let (first, rest) ← keyPart s
  let (others, rest) := many nextKeyPart rest.length rest
  let parts := first :: others
  if parts.length < nestingLimit then
    some ((parts.dropLast, parts.getLast?.getD first), rest)
  else none

end QuerySql.Toml
