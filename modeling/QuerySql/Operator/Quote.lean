import QuerySql.Text.Blank

/-!
# Quotes around an argument

A text is quoted when it starts and ends with the same quote and is more than that one quote.
-/

namespace QuerySql.Text

/-- Whether `c` is one of the three quotes that may stand around an argument. -/
def isQuote (c : Char) : Bool := c == '\'' || c == '"' || c == '\x60'

def unquote? : List Char → Option (List Char)
  | [] => none
  | first :: rest =>
    if isQuote first && rest.getLast? == some first then some rest.dropLast else none

theorem length_of_unquote? {s inner : List Char} (h : unquote? s = some inner) :
    inner.length + 2 = s.length := by
  cases s with
  | nil => cases h
  | cons first rest =>
    simp only [unquote?] at h
    split at h
    · rename_i hq
      cases h
      cases rest with
      | nil => simp at hq
      | cons c r => simp
    · cases h

example : unquote? ['"'] = none := by decide
example : unquote? ['"', '"'] = some [] := by decide

end QuerySql.Text
