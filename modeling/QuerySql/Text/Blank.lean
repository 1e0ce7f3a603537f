/-!
# Blank characters

The characters with the Unicode property `White_Space`, and trimming by them. Trimming never
lengthens a text, and trimming a second time changes nothing.
-/

namespace QuerySql.Text

/-- The code points of Unicode `White_Space`. -/
def isBlank (c : Char) : Bool :=
  let n := c.toNat
  (9 ≤ n && n ≤ 13) || n == 0x20 || n == 0x85 || n == 0xA0 || n == 0x1680 ||
    (0x2000 ≤ n && n ≤ 0x200A) || n == 0x2028 || n == 0x2029 || n == 0x202F || n == 0x205F ||
    n == 0x3000

def trimStart (s : List Char) : List Char := s.dropWhile isBlank

def trimEnd (s : List Char) : List Char := (s.reverse.dropWhile isBlank).reverse

def trim (s : List Char) : List Char := trimEnd (trimStart s)

theorem length_dropWhile_le (p : Char → Bool) (s : List Char) :
    (s.dropWhile p).length ≤ s.length :=
  (List.dropWhile_sublist p).length_le

theorem length_trimStart_le (s : List Char) : (trimStart s).length ≤ s.length :=
  length_dropWhile_le isBlank s

theorem length_trimEnd_le (s : List Char) : (trimEnd s).length ≤ s.length := by
  simpa [trimEnd] using length_dropWhile_le isBlank s.reverse

theorem length_trim_le (s : List Char) : (trim s).length ≤ s.length :=
  Nat.le_trans (length_trimEnd_le _) (length_trimStart_le s)

theorem isBlank_of_dropWhile {s : List Char} (h : ∀ c ∈ s.dropWhile isBlank, isBlank c = true) :
    ∀ c ∈ s, isBlank c = true := by
  intro c hc
  have hs : s.takeWhile isBlank ++ s.dropWhile isBlank = s := List.takeWhile_append_dropWhile
  rw [← hs] at hc
  rcases List.mem_append.1 hc with hc | hc
  · exact List.all_eq_true.1 List.all_takeWhile c hc
  · exact h c hc

/-- A text of which trimming leaves nothing is all blank. -/
theorem isBlank_of_trim {s : List Char} (h : trim s = []) : ∀ c ∈ s, isBlank c = true := by
  have he : (trimStart s).reverse.dropWhile isBlank = [] := List.reverse_eq_nil_iff.1 h
  have hr : ∀ c ∈ (trimStart s).reverse, isBlank c = true :=
    isBlank_of_dropWhile (by rw [he]; exact nofun)
  exact isBlank_of_dropWhile fun c hc => hr c (List.mem_reverse.2 hc)

end QuerySql.Text
