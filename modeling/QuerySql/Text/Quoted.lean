import QuerySql.Text.Unprintable

/-!
# Quoted text in messages

A text shown in a message stands between double quotes. A double quote and a backslash are written
after a backslash, the usual controls by a letter, and an unprintable character by its code point
in hexadecimal.
-/

namespace QuerySql.Text

/-- The lower-case hexadecimal digits of `n`, at least one. -/
def hexDigits (n : Nat) : List Char := Nat.toDigits 16 n

def quoteChar (c : Char) : List Char :=
  match c with
  | '"' => ['\\', '"']
  | '\\' => ['\\', '\\']
  | '\n' => ['\\', 'n']
  | '\r' => ['\\', 'r']
  | '\t' => ['\\', 't']
  | '\x00' => ['\\', '0']
  | c => if isUnprintable c then ['\\', 'u', '\x7b'] ++ hexDigits c.toNat ++ ['\x7d'] else [c]

/-- The text between double quotes, with what could not be told apart escaped. -/
def quoted (s : String) : String :=
  String.ofList ('"' :: s.toList.flatMap quoteChar ++ ['"'])

end QuerySql.Text
