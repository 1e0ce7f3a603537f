import QuerySql.Filter.Formula

/-!
# Chains

A condition in SQL, its pieces left opaque: operands with `AND` and `OR` between them, where an
operand is a piece or a chain in parentheses. `Chain.value` reads a chain with the precedence of
SQL: `AND` binds tighter than `OR`, so an `OR` at the chain's own level (`Chain.splits`) ends the
conjunction before it. `Chain.joined` puts chains next to each other as they are.
-/

namespace QuerySql

/-- What stands between two operands. -/
inductive Connective where
  | and
  | or
  deriving DecidableEq, Repr

namespace Connective

def text : Connective → String
  | and => " AND "
  | or => " OR "

def join : Connective → List Bool → Option Bool
  | _, [] => none
  | and, bs => some (bs.all id)
  | or, bs => some (bs.any id)

theorem join_eq_none {k : Connective} {bs : List Bool} : k.join bs = none ↔ bs = [] := by
  cases bs <;> cases k <;> simp [join]

theorem join_and_eq_true {bs : List Bool} (h : and.join bs = some true) : ∀ b ∈ bs, b = true := by
  cases bs with
  | nil => cases h
  | cons b rest => simpa [join] using h

theorem join_or_eq_true {bs : List Bool} (h : or.join bs = some true) : true ∈ bs := by
  cases bs with
  | nil => cases h
  | cons b rest =>
    obtain ⟨c, hc, rfl⟩ := List.any_eq_true.1 (Option.some.inj h)
    exact hc

theorem join_congr {k : Connective} {bs cs : List Bool} (h : ∀ b, b ∈ bs ↔ b ∈ cs) :
    k.join bs = k.join cs := by
  have hn : bs = [] ↔ cs = [] := by simp only [List.eq_nil_iff_forall_not_mem, h]
  have hall : bs.all id = cs.all id := by
    rw [Bool.eq_iff_iff, List.all_eq_true, List.all_eq_true]
    simp only [h]
  have hany : bs.any id = cs.any id := by
    rw [Bool.eq_iff_iff, List.any_eq_true, List.any_eq_true]
    simp only [h]
  cases bs with
  | nil => rw [hn.1 rfl]
  | cons b rest =>
    cases cs with
    | nil => exact absurd (hn.2 rfl) (List.cons_ne_nil _ _)
    | cons c rest' =>
      cases k with
      | and => exact congrArg some hall
      | or => exact congrArg some hany

end Connective

mutual

inductive Operand where
  /-- A piece of SQL. -/
  | piece (sql : String)
  /-- A chain in parentheses. -/
  | group (inner : Chain)

/-- Operands with connectives between them. -/
inductive Chain where
  | one (o : Operand)
  | link (o : Operand) (k : Connective) (rest : Chain)

end

mutual

def Operand.text : Operand → String
  | .piece sql => sql
  | .group inner => "(" ++ inner.text ++ ")"

def Chain.text : Chain → String
  | .one o => o.text
  | .link o k rest => o.text ++ k.text ++ rest.text

end

mutual

def Operand.pieces : Operand → List String
  | .piece sql => [sql]
  | .group inner => inner.pieces

def Chain.pieces : Chain → List String
  | .one o => o.pieces
  | .link o _ rest => o.pieces ++ rest.pieces

end

mutual

def Operand.value (ν : String → Bool) : Operand → Bool
  | .piece sql => ν sql
  | .group inner => inner.valueAfter ν true

/-- The value of the chain behind a conjunction that has the value `held` so far. -/
def Chain.valueAfter (ν : String → Bool) : Chain → Bool → Bool
  | .one o, held => held && o.value ν
  | .link o .and rest, held => rest.valueAfter ν (held && o.value ν)
  | .link o .or rest, held => (held && o.value ν) || rest.valueAfter ν true

end

namespace Chain

/-- The value of the chain where the pieces have the values `ν`. -/
def value (ν : String → Bool) (c : Chain) : Bool := c.valueAfter ν true

/-- Whether the chain has an `OR` at its own level. -/
def splits : Chain → Bool
  | one _ => false
  | link _ .or _ => true
  | link _ .and rest => rest.splits

def append : Chain → Connective → Chain → Chain
  | one o, k, d => link o k d
  | link o j rest, k, d => link o j (rest.append k d)

def joined (k : Connective) (c : Chain) : List Chain → Chain
  | [] => c
  | d :: rest => c.append k (d.joined k rest)

@[elab_as_elim, induction_eliminator]
theorem induction {P : Chain → Prop} (one : ∀ o, P (one o))
    (link : ∀ o k rest, P rest → P (link o k rest)) : ∀ c, P c
  | .one o => one o
  | .link o k rest => link o k rest (induction one link rest)

variable {ν : String → Bool} {b : Bool} {c d : Chain} {k : Connective}

/-! ## Two chains next to each other -/

theorem text_append (c d : Chain) (k : Connective) :
    (c.append k d).text = c.text ++ k.text ++ d.text := by
  induction c with
  | one o => rfl
  | link o j rest ih => simp only [append, text, ih, String.append_assoc]

theorem pieces_append (c d : Chain) (k : Connective) :
    (c.append k d).pieces = c.pieces ++ d.pieces := by
  induction c with
  | one o => rfl
  | link o j rest ih => simp only [append, pieces, ih, List.append_assoc]

theorem splits_append_and (c d : Chain) :
    (c.append .and d).splits = (c.splits || d.splits) := by
  induction c with
  | one o => rfl
  | link o j rest ih =>
    cases j with
    | and => exact ih
    | or => rfl

theorem valueAfter_of_not_splits (h : c.splits = false) :
    c.valueAfter ν b = (b && c.value ν) := by
  unfold value
  induction c generalizing b with
  | one o => simp only [valueAfter, Bool.true_and]
  | link o j rest ih =>
    cases j with
    | and =>
      have hr : rest.splits = false := h
      simp only [valueAfter, Bool.true_and]
      rw [ih hr, ih hr (b := o.value ν), Bool.and_assoc]
    | or => cases h

theorem splits_append_or (c d : Chain) : (c.append .or d).splits = true := by
  induction c with
  | one o => rfl
  | link o j rest ih =>
    cases j with
    | and => exact ih
    | or => rfl

theorem valueAfter_append_or (c d : Chain) :
    (c.append .or d).valueAfter ν b = (c.valueAfter ν b || d.value ν) := by
  induction c generalizing b with
  | one o => rfl
  | link o j rest ih =>
    cases j with
    | and => exact ih
    | or => simp only [append, valueAfter, ih, Bool.or_assoc]

theorem valueAfter_append_and (h : c.splits = false) (d : Chain) :
    (c.append .and d).valueAfter ν b = d.valueAfter ν (b && c.value ν) := by
  unfold value
  induction c generalizing b with
  | one o => simp only [append, valueAfter, Bool.true_and]
  | link o j rest ih =>
    cases j with
    | and =>
      have hr : rest.splits = false := h
      simp only [append, valueAfter, Bool.true_and]
      rw [ih hr, valueAfter_of_not_splits hr, valueAfter_of_not_splits hr (b := o.value ν)]
      simp only [value, Bool.true_and, Bool.and_assoc]
    | or => cases h

theorem valueAfter_append_and_of (hc : c.valueAfter ν b = true) (hd : d.value ν = true) :
    (c.append .and d).valueAfter ν b = true := by
  induction c generalizing b with
  | one o =>
    have ho : (b && o.value ν) = true := hc
    simp only [append, valueAfter, ho]
    exact hd
  | link o j rest ih =>
    cases j with
    | and => exact ih hc
    | or =>
      simp only [append, valueAfter, Bool.or_eq_true] at hc ⊢
      exact hc.imp_right ih

end Chain

/-! ## The pieces decide -/

section

variable {ν μ : String → Bool}

mutual

theorem Operand.value_congr : ∀ {o : Operand}, (∀ s ∈ o.pieces, ν s = μ s) →
    o.value ν = o.value μ
  | .piece sql, h => h sql (List.mem_singleton_self sql)
  | .group _, h => Chain.valueAfter_congr h

theorem Chain.valueAfter_congr : ∀ {c : Chain} {b : Bool}, (∀ s ∈ c.pieces, ν s = μ s) →
    c.valueAfter ν b = c.valueAfter μ b
  | .one _, b, h => congrArg (b && ·) (Operand.value_congr h)
  | .link o k rest, b, h => by
    have ho : o.value ν = o.value μ :=
      Operand.value_congr fun s hs => h s (List.mem_append_left _ hs)
    have hr : ∀ s ∈ rest.pieces, ν s = μ s := fun s hs => h s (List.mem_append_right _ hs)
    cases k with
    | and => simp only [Chain.valueAfter, ho]; exact Chain.valueAfter_congr hr
    | or => simp only [Chain.valueAfter, ho, Chain.valueAfter_congr (b := true) hr]

end

mutual

theorem Operand.value_of_pieces {v : Bool} : ∀ {o : Operand}, (∀ s ∈ o.pieces, ν s = v) →
    o.value ν = v
  | .piece sql, h => h sql (List.mem_singleton_self sql)
  | .group _, h => Chain.valueAfter_of_pieces (.inl rfl) h

theorem Chain.valueAfter_of_pieces {v : Bool} : ∀ {c : Chain} {b : Bool}, b = true ∨ v = false →
    (∀ s ∈ c.pieces, ν s = v) → c.valueAfter ν b = v
  | .one o, b, hb, h => by
    have ho : o.value ν = v := Operand.value_of_pieces h
    simp only [Chain.valueAfter, ho]
    rcases hb with rfl | rfl
    · exact Bool.true_and v
    · exact Bool.and_false b
  | .link o k rest, b, hb, h => by
    have ho : o.value ν = v := Operand.value_of_pieces fun s hs => h s (List.mem_append_left _ hs)
    have hr : ∀ s ∈ rest.pieces, ν s = v := fun s hs => h s (List.mem_append_right _ hs)
    cases k with
    | and =>
      simp only [Chain.valueAfter, ho]
      refine Chain.valueAfter_of_pieces ?_ hr
      rcases hb with rfl | rfl
      · cases v <;> simp
      · exact .inr rfl
    | or =>
      simp only [Chain.valueAfter, ho, Chain.valueAfter_of_pieces (.inl rfl) hr]
      cases v <;> simp

end

end

namespace Chain

variable {ν : String → Bool} {b : Bool} {c d : Chain} {k : Connective}

theorem value_of_pieces {v : Bool} (h : ∀ s ∈ c.pieces, ν s = v) : c.value ν = v :=
  valueAfter_of_pieces (.inl rfl) h

/-- What comes behind a true conjunction that an `OR` ends does not matter. -/
theorem value_append_of_splits (hs : c.splits = true) (h : ∀ s ∈ c.pieces, ν s = true)
    (k : Connective) (d : Chain) : (c.append k d).value ν = true := by
  unfold value
  induction c with
  | one o => cases hs
  | link o j rest ih =>
    have ho : o.value ν = true :=
      Operand.value_of_pieces fun s hm => h s (List.mem_append_left _ hm)
    have hr : ∀ s ∈ rest.pieces, ν s = true := fun s hm => h s (List.mem_append_right _ hm)
    cases j with
    | and =>
      simp only [append, valueAfter, ho, Bool.and_self]
      exact ih hs hr
    | or => simp only [append, valueAfter, ho, Bool.and_self, Bool.true_or]

/-- What comes in front of an `OR` does not matter where a true conjunction stands behind it. -/
theorem valueAfter_of_splits (hs : c.splits = true) (h : ∀ s ∈ c.pieces, ν s = true) :
    c.valueAfter ν b = true := by
  induction c generalizing b with
  | one o => cases hs
  | link o j rest ih =>
    have hr : ∀ s ∈ rest.pieces, ν s = true := fun s hm => h s (List.mem_append_right _ hm)
    cases j with
    | and => exact ih hs hr
    | or =>
      have hv : rest.valueAfter ν true = true := value_of_pieces hr
      simp only [valueAfter, hv, Bool.or_true]

theorem valueAfter_append_and_of_right (h : ∀ b, d.valueAfter ν b = true) (c : Chain) :
    (c.append .and d).valueAfter ν b = true := by
  induction c generalizing b with
  | one o => exact h _
  | link o j rest ih =>
    cases j with
    | and => exact ih
    | or => simp only [append, valueAfter, ih, Bool.or_true]

theorem text_ne_empty (h : ∀ s ∈ c.pieces, s ≠ "") : c.text ≠ "" := by
  cases c with
  | one o =>
    cases o with
    | piece sql => exact h sql (List.mem_singleton_self sql)
    | group inner => simp [text, Operand.text]
  | link o k rest => cases k <;> simp [text, Connective.text]

/-! ## Several chains next to each other -/

theorem text_joined (k : Connective) (c : Chain) (cs : List Chain) :
    (c.joined k cs).text = String.intercalate k.text ((c :: cs).map text) := by
  induction cs generalizing c with
  | nil => simp [joined]
  | cons d rest ih =>
    rw [joined, text_append, ih]
    simp only [List.map_cons, String.intercalate_cons_cons]

theorem pieces_joined (k : Connective) (c : Chain) (cs : List Chain) :
    (c.joined k cs).pieces = (c :: cs).flatMap pieces := by
  induction cs generalizing c with
  | nil => simp [joined]
  | cons d rest ih => simp only [joined, pieces_append, ih, List.flatMap_cons]

theorem splits_joined_and (c : Chain) (cs : List Chain) :
    (c.joined .and cs).splits = (c :: cs).any splits := by
  induction cs generalizing c with
  | nil => simp [joined]
  | cons d rest ih => rw [joined, splits_append_and, ih, ← List.any_cons]

theorem value_joined_or (c : Chain) (cs : List Chain) :
    (c.joined .or cs).value ν = ((c :: cs).map (value ν)).any id := by
  induction cs generalizing c with
  | nil => simp [joined]
  | cons d rest ih =>
    rw [List.map_cons, List.any_cons, ← ih]
    exact valueAfter_append_or c (d.joined .or rest)

theorem value_joined_and {cs : List Chain} (hs : ∀ d ∈ c :: cs, d.splits = false) :
    (c.joined .and cs).value ν = ((c :: cs).map (value ν)).all id := by
  induction cs generalizing c with
  | nil => simp [joined]
  | cons d rest ih =>
    have hr : ∀ e ∈ d :: rest, e.splits = false := fun e he => hs e (List.mem_cons_of_mem _ he)
    have hn : (d.joined .and rest).splits = false := by
      rw [splits_joined_and, List.any_eq_false]
      exact fun e he => by rw [hr e he]; decide
    rw [List.map_cons, List.all_cons, ← ih hr, joined, value,
      valueAfter_append_and (hs c List.mem_cons_self), valueAfter_of_not_splits hn, Bool.true_and]
    rfl

/-- A conjunction accepts what all of its parts accept, with or without parentheses. -/
theorem value_joined_and_of {cs : List Chain} (hv : ∀ d ∈ c :: cs, d.value ν = true) :
    (c.joined .and cs).value ν = true := by
  induction cs generalizing c with
  | nil => exact hv c List.mem_cons_self
  | cons d rest ih =>
    exact valueAfter_append_and_of (hv c List.mem_cons_self)
      (ih fun e he => hv e (List.mem_cons_of_mem _ he))

/-- A part that splits makes a conjunction true without the parts in front of it. -/
theorem valueAfter_joined_of_suffix {cs pre post : List Chain} (hl : c :: cs = pre ++ d :: post)
    (hs : d.splits = true) (hv : ∀ e ∈ d :: post, ∀ s ∈ e.pieces, ν s = true) :
    (c.joined .and cs).valueAfter ν b = true := by
  induction pre generalizing b c cs with
  | nil =>
    obtain ⟨rfl, rfl⟩ := List.cons.inj hl
    refine valueAfter_of_splits ?_ fun s hm => ?_
    · rw [splits_joined_and, List.any_cons, hs, Bool.true_or]
    · rw [pieces_joined] at hm
      obtain ⟨e, he, hm⟩ := List.mem_flatMap.1 hm
      exact hv e he s hm
  | cons a pre ih =>
    obtain ⟨rfl, hr⟩ := List.cons.inj hl
    cases cs with
    | nil => simp at hr
    | cons e rest => exact valueAfter_append_and_of_right (fun _ => ih hr) c

theorem value_joined_of_prefix {cs pre post : List Chain} (hl : c :: cs = pre ++ d :: post)
    (hs : d.splits = true) (hv : ∀ e ∈ pre ++ [d], ∀ s ∈ e.pieces, ν s = true) :
    (c.joined .and cs).value ν = true := by
  induction pre generalizing c cs with
  | nil =>
    obtain ⟨rfl, rfl⟩ := List.cons.inj hl
    have hc : ∀ s ∈ c.pieces, ν s = true := hv c (List.mem_singleton_self c)
    cases cs with
    | nil => exact value_of_pieces hc
    | cons e rest => exact value_append_of_splits hs hc _ _
  | cons a pre ih =>
    obtain ⟨rfl, hr⟩ := List.cons.inj hl
    have hc : c.value ν = true := value_of_pieces (hv c List.mem_cons_self)
    cases cs with
    | nil => simp at hr
    | cons e rest =>
      exact valueAfter_append_and_of hc (ih hr fun f hf => hv f (List.mem_cons_of_mem _ hf))

end Chain

end QuerySql
