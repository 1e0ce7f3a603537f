import QuerySql.Json.Reader
import QuerySql.Operator.Quote

/-!
# Operator arguments

The text between the parentheses of an operator call is JSON if it can be read as JSON. Otherwise
one layer of quotes is taken off: what is inside may be the items of a list or the members of an
object, and if it is neither, or there are no quotes, the argument is the text itself. An argument
weighs no more than its text allows (`weight_decode_le`), so texts inside it can be read again.
-/

namespace QuerySql.Argument

/-- The value inside quotes: a list without its brackets, an object without its braces, or text. -/
def decodeInner (inner : List Char) : Json :=
  match Json.read? ('[' :: inner ++ [']']) with
  | some v => v
  | none =>
    match Json.read? ('\x7b' :: inner ++ ['\x7d']) with
    | some v => v
    | none => .string (String.ofList inner)

def decode (s : List Char) : Json :=
  match Json.read? s with
  | some v => v
  | none =>
    let t := Text.trim s
    match Text.unquote? t with
    | some inner => decodeInner inner
    | none => .string (String.ofList t)

theorem decode_of_read {s : List Char} {v : Json} (h : Json.read s = .ok v) : decode s = v := by
  simp [decode, Json.read?, h, Except.toOption]

theorem decode_of_plain {c : Char} {t : List Char} (hs : Document.isSpace c = false)
    (hc : Document.startsValue c = false) (hq : Text.isQuote c = false)
    (ht : Text.trim (c :: t) = c :: t) : decode (c :: t) = .string (String.ofList (c :: t)) := by
  have hread : Json.read? (c :: t) = none := by
    rw [Json.read?, Json.read, Document.read_scan_of_plain hs hc]
    rfl
  have hunquote : Text.unquote? (c :: t) = none := if_neg (by simp [hq])
  unfold decode
  rw [hread]
  dsimp only
  rw [ht, hunquote]

theorem weight_decodeInner_le (inner : List Char) :
    (decodeInner inner).weight ≤ inner.length + 2 := by
  unfold decodeInner
  split
  · rename_i v h
    simpa using Json.weight_le_of_read? h
  · split
    · rename_i v h
      simpa using Json.weight_le_of_read? h
    · simp [Json.weight, String.length_ofList]

theorem weight_decode_le (s : List Char) : (decode s).weight ≤ s.length + 1 := by
  unfold decode
  split
  · rename_i v h
    have := Json.weight_le_of_read? h
    omega
  · have ht := Text.length_trim_le s
    dsimp only
    split
    · rename_i inner h
      have := Text.length_of_unquote? h
      have := weight_decodeInner_le inner
      omega
    · simp only [Json.weight, String.length_ofList]; omega

end QuerySql.Argument
