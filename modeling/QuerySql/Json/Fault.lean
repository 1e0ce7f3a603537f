/-!
# Faults of a JSON text

What can be wrong with a text that should hold one JSON value, and the wording of each fault.
-/

namespace QuerySql

/-- What is wrong with a JSON text. -/
inductive TextFault where
  /-- The text ends where a value should stand, or inside one that is no string, list or object. -/
  | unfinishedValue
  | unfinishedList
  | unfinishedObject
  | unfinishedString
  | expectedColon
  /-- Neither a comma nor a closing bracket follows an item. -/
  | expectedCommaOrBracket
  /-- Neither a comma nor a closing brace follows a member. -/
  | expectedCommaOrBrace
  /-- A word starts like `null`, `true` or `false` and goes on otherwise. -/
  | expectedWord
  | expectedValue
  /-- A member starts with something other than a string. -/
  | expectedName
  | trailingComma
  | trailingText
  | badEscape
  /-- The first half of a surrogate pair is followed by something other than an escape. -/
  | unfinishedPair
  /-- A half of a surrogate pair stands where the other or none should. -/
  | loneSurrogate
  | controlCharacter
  | badNumber
  | numberTooLarge
  /-- Lists and objects are nested too deeply. -/
  | tooDeep
  deriving DecidableEq, Repr

namespace TextFault

def message : TextFault → String
  | unfinishedValue => "EOF while parsing a value"
  | unfinishedList => "EOF while parsing a list"
  | unfinishedObject => "EOF while parsing an object"
  | unfinishedString => "EOF while parsing a string"
  | expectedColon => "expected `:`"
  | expectedCommaOrBracket => "expected `,` or `]`"
  | expectedCommaOrBrace => "expected `,` or `\x7d`"
  | expectedWord => "expected ident"
  | expectedValue => "expected value"
  | expectedName => "key must be a string"
  | trailingComma => "trailing comma"
  | trailingText => "trailing characters"
  | badEscape => "invalid escape"
  | unfinishedPair => "unexpected end of hex escape"
  | loneSurrogate => "lone leading surrogate in hex escape"
  | controlCharacter => "control character (\\u0000-\\u001F) found while parsing a string"
  | badNumber => "invalid number"
  | numberTooLarge => "number out of range"
  | tooDeep => "recursion limit exceeded"

end TextFault

theorem exists_of_bind_eq_ok {ε α β : Type} {r : Except ε α} {f : α → Except ε β} {b : β}
    (h : r >>= f = .ok b) : ∃ a, r = .ok a ∧ f a = .ok b := by
  cases r with
  | error e => cases h
  | ok a => exact ⟨a, rfl, h⟩

theorem bind_of_ok {ε α β : Type} {r : Except ε α} {a : α} (h : r = .ok a)
    (f : α → Except ε β) : r >>= f = f a := by
  rw [h]
  rfl

theorem mapM_eq_pure_map {m : Type → Type} [Monad m] [LawfulMonad m] {α β : Type} {f : α → m β}
    {g : α → β} {xs : List α} (h : ∀ x ∈ xs, f x = pure (g x)) :
    xs.mapM f = pure (xs.map g) := by
  induction xs with
  | nil => exact List.mapM_nil
  | cons x rest ih =>
    rw [List.mapM_cons, h x List.mem_cons_self, ih fun y hy => h y (List.mem_cons_of_mem x hy)]
    simp only [pure_bind, List.map_cons]

/-- What is written part by part is read where every part of it is. -/
theorem mapM_map_eq_ok {ε α β : Type} {write : α → β} {read : β → Except ε α} {xs : List α}
    (h : ∀ x ∈ xs, read (write x) = .ok x) : (xs.map write).mapM read = .ok xs := by
  rw [List.mapM_map]
  exact (mapM_eq_pure_map (g := id) h).trans (congrArg Except.ok (List.map_id xs))

end QuerySql
