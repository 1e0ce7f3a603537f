import Mathlib.Data.List.Nodup
import QuerySql.Proofs.Chain

/-!
# Outlines

What the text of a formula holds: its pieces under "and" and "or", without the parts that write
nothing. `Outline.chain` is the text as a chain. A list of two or more alternatives among the parts
of a conjunction stands in parentheses if the part is that list itself (`isAlternatives`). One that
comes up through nodes with a single part (`passesUp`) does not, and then the chain means something
else: reading the chain gives back the value of the outline exactly where no conjunction of two or
more parts has such a part (`Guarded`).
-/

namespace QuerySql

/-- Pieces of SQL joined by "and" and "or", with at least one part at each node. -/
inductive Outline where
  | piece (sql : String)
  | all (first : Outline) (rest : List Outline)
  | any (first : Outline) (rest : List Outline)

namespace Outline

@[elab_as_elim, induction_eliminator]
theorem induction {P : Outline → Prop} (piece : ∀ sql, P (piece sql))
    (all : ∀ first rest, (∀ t ∈ first :: rest, P t) → P (all first rest))
    (any : ∀ first rest, (∀ t ∈ first :: rest, P t) → P (any first rest)) : ∀ t, P t
  | .piece sql => piece sql
  | .all first rest => all first rest fun t _ => induction piece all any t
  | .any first rest => any first rest fun t _ => induction piece all any t

def isAlternatives : Outline → Bool
  | any _ (_ :: _) => true
  | _ => false

def part (t : Outline) (c : Chain) : Chain := if t.isAlternatives then .one (.group c) else c

mutual

def chain : Outline → Chain
  | piece sql => .one (.piece sql)
  | all first [] => chain first
  | all first (second :: rest) =>
    (first.part (chain first)).joined .and (second.part (chain second) :: parts rest)
  | any first rest => (chain first).joined .or (chains rest)

def parts : List Outline → List Chain
  | [] => []
  | t :: rest => t.part (chain t) :: parts rest

def chains : List Outline → List Chain
  | [] => []
  | t :: rest => chain t :: chains rest

end

def placed (t : Outline) : Chain := t.part t.chain

mutual

def value (ν : String → Bool) : Outline → Bool
  | piece sql => ν sql
  | all first rest => value ν first && allOf ν rest
  | any first rest => value ν first || anyOf ν rest

def allOf (ν : String → Bool) : List Outline → Bool
  | [] => true
  | t :: rest => value ν t && allOf ν rest

def anyOf (ν : String → Bool) : List Outline → Bool
  | [] => false
  | t :: rest => value ν t || anyOf ν rest

end

mutual

def pieces : Outline → List String
  | piece sql => [sql]
  | all first rest | any first rest => pieces first ++ piecesOf rest

def piecesOf : List Outline → List String
  | [] => []
  | t :: rest => pieces t ++ piecesOf rest

end

/-- Whether the chain of the outline is a list of two or more alternatives at its own level. -/
def isBare : Outline → Bool
  | piece _ => false
  | all first [] | any first [] => isBare first
  | all _ (_ :: _) => false
  | any _ (_ :: _) => true

/-- Whether a list of two or more alternatives comes up through nodes with a single part. -/
def passesUp (t : Outline) : Bool := t.isBare && !t.isAlternatives

/-- No conjunction of two or more parts has a part through which alternatives come up. -/
inductive Guarded : Outline → Prop where
  | piece (sql : String) : Guarded (.piece sql)
  | all {first : Outline} {rest : List Outline} (parts : ∀ t ∈ first :: rest, Guarded t)
      (closed : rest ≠ [] → ∀ t ∈ first :: rest, t.passesUp = false) : Guarded (.all first rest)
  | any {first : Outline} {rest : List Outline} (parts : ∀ t ∈ first :: rest, Guarded t) :
      Guarded (.any first rest)

/-- In the chain, no part of a conjunction of two or more is a list of alternatives without
parentheses. -/
inductive Parenthesized : Outline → Prop where
  | piece (sql : String) : Parenthesized (.piece sql)
  | all {first : Outline} {rest : List Outline} (parts : ∀ t ∈ first :: rest, Parenthesized t)
      (closed : rest ≠ [] → ∀ t ∈ first :: rest, t.placed.splits = false) :
      Parenthesized (.all first rest)
  | any {first : Outline} {rest : List Outline} (parts : ∀ t ∈ first :: rest, Parenthesized t) :
      Parenthesized (.any first rest)

variable {ν μ : String → Bool} {first t : Outline} {rest : List Outline}

/-! ## Nodes -/

theorem parts_eq_map (ts : List Outline) : parts ts = ts.map placed := by
  induction ts with
  | nil => rfl
  | cons t ts ih => rw [parts, ih, List.map_cons, placed]

theorem chains_eq_map (ts : List Outline) : chains ts = ts.map chain := by
  induction ts with
  | nil => rfl
  | cons t ts ih => rw [chains, ih, List.map_cons]

theorem chain_all_single (first : Outline) : (all first []).chain = first.chain := by
  rw [chain]

theorem chain_all (first : Outline) (h : rest ≠ []) :
    (all first rest).chain = first.placed.joined .and (rest.map placed) := by
  cases rest with
  | nil => exact absurd rfl h
  | cons second rest => rw [chain, parts_eq_map, List.map_cons, placed, placed]

theorem chain_any (first : Outline) (rest : List Outline) :
    (any first rest).chain = first.chain.joined .or (rest.map chain) := by
  rw [chain, chains_eq_map]

theorem allOf_eq (ts : List Outline) : allOf ν ts = (ts.map (value ν)).all id := by
  induction ts with
  | nil => rfl
  | cons t ts ih => rw [allOf, ih]; rfl

theorem anyOf_eq (ts : List Outline) : anyOf ν ts = (ts.map (value ν)).any id := by
  induction ts with
  | nil => rfl
  | cons t ts ih => rw [anyOf, ih]; rfl

theorem value_all (first : Outline) (rest : List Outline) :
    (all first rest).value ν = ((first :: rest).map (value ν)).all id := by
  rw [value, allOf_eq]; rfl

theorem value_any (first : Outline) (rest : List Outline) :
    (any first rest).value ν = ((first :: rest).map (value ν)).any id := by
  rw [value, anyOf_eq]; rfl

theorem piecesOf_eq (ts : List Outline) : piecesOf ts = ts.flatMap pieces := by
  induction ts with
  | nil => rfl
  | cons t ts ih => rw [piecesOf, ih, List.flatMap_cons]

theorem pieces_all (first : Outline) (rest : List Outline) :
    (all first rest).pieces = (first :: rest).flatMap pieces := by
  rw [pieces, piecesOf_eq, List.flatMap_cons]

theorem pieces_any (first : Outline) (rest : List Outline) :
    (any first rest).pieces = (first :: rest).flatMap pieces := by
  rw [pieces, piecesOf_eq, List.flatMap_cons]

@[simp]
theorem value_placed (t : Outline) : t.placed.value ν = t.chain.value ν := by
  unfold placed part
  split
  · exact Bool.true_and _
  · rfl

@[simp]
theorem pieces_placed (t : Outline) : t.placed.pieces = t.chain.pieces := by
  unfold placed part
  split <;> rfl

theorem pieces_chain (t : Outline) : t.chain.pieces = t.pieces := by
  induction t with
  | piece sql => rfl
  | all first rest ih =>
    have hp : (first :: rest).flatMap (fun t => t.chain.pieces) = (first :: rest).flatMap pieces :=
      List.flatMap_congr ih
    rw [pieces_all, ← hp]
    cases rest with
    | nil => simp [chain_all_single]
    | cons second rest =>
      rw [chain_all _ (List.cons_ne_nil _ _), Chain.pieces_joined, ← List.map_cons (f := placed),
        List.flatMap_map]
      simp only [pieces_placed]
  | any first rest ih =>
    rw [pieces_any, ← List.flatMap_congr ih, chain_any, Chain.pieces_joined,
      ← List.map_cons (f := chain), List.flatMap_map]

/-! ## Parentheses -/

theorem Parenthesized.splits_chain (h : t.Parenthesized) : t.chain.splits = t.isBare := by
  induction h with
  | piece sql => rfl
  | @all first rest _ closed ih =>
    cases rest with
    | nil => rw [chain_all_single, isBare]; exact ih first List.mem_cons_self
    | cons second rest =>
      have hne : second :: rest ≠ [] := List.cons_ne_nil _ _
      rw [chain_all _ hne, Chain.splits_joined_and, ← List.map_cons (f := placed), List.any_map,
        isBare, List.any_eq_false]
      intro t ht
      simp [closed hne t ht]
  | @any first rest _ ih =>
    rw [chain_any]
    cases rest with
    | nil => rw [isBare]; exact ih first List.mem_cons_self
    | cons second rest => exact Chain.splits_append_or _ _

theorem Parenthesized.splits_placed (h : t.Parenthesized) : t.placed.splits = t.passesUp := by
  unfold placed part passesUp
  cases ha : t.isAlternatives with
  | true => simp [Chain.splits]
  | false => simp [h.splits_chain]

/-- The parentheses are in place exactly where no alternatives come up unseen. -/
theorem parenthesized_iff_guarded : t.Parenthesized ↔ t.Guarded := by
  induction t with
  | piece sql => exact ⟨fun _ => .piece sql, fun _ => .piece sql⟩
  | all first rest ih =>
    constructor
    · intro h
      cases h with
      | all parts closed =>
        exact .all (fun t ht => (ih t ht).1 (parts t ht)) fun hne t ht =>
          (parts t ht).splits_placed ▸ closed hne t ht
    · intro h
      cases h with
      | all parts closed =>
        have hp := fun t ht => (ih t ht).2 (parts t ht)
        exact .all hp fun hne t ht => (hp t ht).splits_placed.trans (closed hne t ht)
  | any first rest ih =>
    constructor
    · intro h
      cases h with
      | any parts => exact .any fun t ht => (ih t ht).1 (parts t ht)
    · intro h
      cases h with
      | any parts => exact .any fun t ht => (ih t ht).2 (parts t ht)

theorem value_congr (h : ∀ s ∈ t.pieces, ν s = μ s) : t.value ν = t.value μ := by
  induction t with
  | piece sql => exact h sql (List.mem_singleton_self sql)
  | all first rest ih =>
    have hp : ∀ t ∈ first :: rest, t.value ν = t.value μ := fun t ht =>
      ih t ht fun s hs => h s (pieces_all first rest ▸ List.mem_flatMap.2 ⟨t, ht, hs⟩)
    rw [value_all, value_all, List.map_congr_left hp]
  | any first rest ih =>
    have hp : ∀ t ∈ first :: rest, t.value ν = t.value μ := fun t ht =>
      ih t ht fun s hs => h s (pieces_any first rest ▸ List.mem_flatMap.2 ⟨t, ht, hs⟩)
    rw [value_any, value_any, List.map_congr_left hp]

/-- Read with precedence, a chain with its parentheses in place means what its outline does. -/
theorem Parenthesized.value_chain (h : t.Parenthesized) : t.chain.value ν = t.value ν := by
  induction h with
  | piece sql => exact Bool.true_and _
  | @all first rest _ closed ih =>
    cases rest with
    | nil => rw [chain_all_single, ih first List.mem_cons_self, value_all]; simp
    | cons second rest =>
      have hne : second :: rest ≠ [] := List.cons_ne_nil _ _
      have hs : ∀ c ∈ first.placed :: (second :: rest).map placed, c.splits = false := by
        rw [← List.map_cons (f := placed)]
        intro c hc
        obtain ⟨t, ht, rfl⟩ := List.mem_map.1 hc
        exact closed hne t ht
      rw [value_all, ← List.map_congr_left ih, chain_all _ hne, Chain.value_joined_and hs]
      simp [Function.comp_def]
  | @any first rest _ ih =>
    rw [value_any, ← List.map_congr_left ih, chain_any, Chain.value_joined_or]
    simp [Function.comp_def]

/-- Missing parentheses only widen: the chain accepts all that the outline accepts. -/
theorem value_chain_of_value (h : t.value ν = true) : t.chain.value ν = true := by
  induction t with
  | piece sql => exact (Bool.true_and _).trans h
  | all first rest ih =>
    have hv : ∀ t ∈ first :: rest, t.chain.value ν = true := fun t ht => ih t ht (by
      rw [value_all, List.all_eq_true] at h
      exact h _ (List.mem_map_of_mem ht))
    cases rest with
    | nil => rw [chain_all_single]; exact hv first List.mem_cons_self
    | cons second rest =>
      rw [chain_all _ (List.cons_ne_nil _ _)]
      refine Chain.value_joined_and_of ?_
      rw [← List.map_cons (f := placed)]
      intro c hc
      obtain ⟨t, ht, rfl⟩ := List.mem_map.1 hc
      exact (value_placed t).trans (hv t ht)
  | any first rest ih =>
    rw [value_any, List.any_map, List.any_eq_true] at h
    obtain ⟨t, ht, hv⟩ := h
    rw [chain_any, Chain.value_joined_or, ← List.map_cons (f := chain), List.map_map, List.any_map,
      List.any_eq_true]
    exact ⟨t, ht, ih t ht hv⟩

/-! ## Where parentheses are missing -/

theorem value_of_pieces {v : Bool} (h : ∀ s ∈ t.pieces, ν s = v) : t.value ν = v := by
  induction t with
  | piece sql => exact h sql (List.mem_singleton_self sql)
  | all first rest ih =>
    have hp : ∀ t ∈ first :: rest, t.value ν = v := fun t ht =>
      ih t ht fun s hs => h s (pieces_all first rest ▸ List.mem_flatMap.2 ⟨t, ht, hs⟩)
    rw [value_all, List.map_congr_left hp]
    cases v <;> simp
  | any first rest ih =>
    have hp : ∀ t ∈ first :: rest, t.value ν = v := fun t ht =>
      ih t ht fun s hs => h s (pieces_any first rest ▸ List.mem_flatMap.2 ⟨t, ht, hs⟩)
    rw [value_any, List.map_congr_left hp]
    cases v <;> simp

/-- The values `ν` for the pieces of an outline, and one value for all others. -/
def overlay (t : Outline) (ν : String → Bool) (v : Bool) (s : String) : Bool :=
  if s ∈ t.pieces then ν s else v

theorem overlay_of_mem {v : Bool} {s : String} (h : s ∈ t.pieces) : t.overlay ν v s = ν s :=
  if_pos h

theorem overlay_of_disjoint {u : Outline} {v : Bool} (h : List.Disjoint u.pieces t.pieces)
    {s : String} (hs : s ∈ u.pieces) : t.overlay ν v s = v :=
  if_neg (h hs)

theorem value_overlay (v : Bool) : t.value (t.overlay ν v) = t.value ν :=
  value_congr fun _ hs => overlay_of_mem hs

theorem value_chain_overlay (v : Bool) : t.chain.value (t.overlay ν v) = t.chain.value ν :=
  Chain.valueAfter_congr fun _ hs => overlay_of_mem (pieces_chain t ▸ hs)

theorem value_chain_of_pieces {v : Bool} (h : ∀ s ∈ t.pieces, ν s = v) : t.chain.value ν = v :=
  Chain.value_of_pieces fun s hs => h s (pieces_chain t ▸ hs)

/-- Parts at different places share no piece. -/
def Apart (ts : List Outline) : Prop :=
  ts.Pairwise fun t u => List.Disjoint t.pieces u.pieces

theorem apart_of_nodup {ts : List Outline} (h : (ts.flatMap pieces).Nodup) : Apart ts :=
  (List.nodup_flatMap.1 h).2

theorem Apart.disjoint {pre post : List Outline} {u : Outline} (h : Apart (pre ++ t :: post))
    (hu : u ∈ pre ++ post) : List.Disjoint u.pieces t.pieces := by
  obtain ⟨-, h₂, h₃⟩ := List.pairwise_append.1 h
  rcases List.mem_append.1 hu with hu | hu
  · exact h₃ u hu t List.mem_cons_self
  · exact List.disjoint_symm ((List.pairwise_cons.1 h₂).1 u hu)

/-- Next to a part there is one behind it that shares nothing with those up to it, or one in front
of it that shares nothing with those from it on. -/
theorem Apart.exists_spare {pre post : List Outline} (h : Apart (pre ++ t :: post))
    (hne : pre ++ post ≠ []) :
    (∃ u ∈ post, ∀ w ∈ pre ++ [t], List.Disjoint w.pieces u.pieces)
      ∨ ∃ u ∈ pre, ∀ w ∈ t :: post, List.Disjoint w.pieces u.pieces := by
  obtain ⟨-, h₂, h₃⟩ := List.pairwise_append.1 h
  cases post with
  | cons u post =>
    refine .inl ⟨u, List.mem_cons_self, fun w hw => ?_⟩
    rcases List.mem_append.1 hw with hw | hw
    · exact h₃ w hw u (by simp)
    · rw [List.mem_singleton.1 hw]
      exact (List.pairwise_cons.1 h₂).1 u List.mem_cons_self
  | nil =>
    cases pre with
    | nil => exact absurd rfl hne
    | cons u pre =>
      exact .inr ⟨u, List.mem_cons_self, fun w hw =>
        List.disjoint_symm (h₃ u List.mem_cons_self w hw)⟩

theorem value_all_overlay {u : Outline} (hu : u ∈ first :: rest) :
    (all first rest).value (u.overlay (fun _ => false) true) = false := by
  rw [value_all, List.all_eq_false]
  refine ⟨_, List.mem_map_of_mem hu, ?_⟩
  rw [value_overlay, value_of_pieces (v := false) fun _ _ => rfl]
  decide

/-- A part that splits widens the conjunction: some other part is not asked for. -/
theorem exists_widened_of_splits (hp : Apart (first :: rest)) (hne : rest ≠ [])
    (ht : t ∈ first :: rest) (hs : t.placed.splits = true) :
    ∃ ν, (all first rest).chain.value ν = true ∧ (all first rest).value ν = false := by
  obtain ⟨pre, post, hl⟩ := List.append_of_mem ht
  have hc : first.placed :: rest.map placed = pre.map placed ++ t.placed :: post.map placed := by
    rw [← List.map_cons (f := placed), hl, List.map_append, List.map_cons]
  have hother : pre ++ post ≠ [] := by
    intro h
    obtain ⟨rfl, rfl⟩ := List.append_eq_nil_iff.1 h
    exact hne (List.cons.inj hl).2
  rw [chain_all _ hne]
  rcases (hl ▸ hp).exists_spare hother with ⟨u, hu, hd⟩ | ⟨u, hu, hd⟩
  · refine ⟨u.overlay (fun _ => false) true, ?_, value_all_overlay (by rw [hl]; simp [hu])⟩
    refine Chain.value_joined_of_prefix hc hs fun e he s hm => ?_
    have he : e ∈ (pre ++ [t]).map placed := by rwa [List.map_append]
    obtain ⟨w, hw, rfl⟩ := List.mem_map.1 he
    rw [pieces_placed, pieces_chain] at hm
    exact overlay_of_disjoint (hd w hw) hm
  · refine ⟨u.overlay (fun _ => false) true, ?_, value_all_overlay (by rw [hl]; simp [hu])⟩
    refine Chain.valueAfter_joined_of_suffix hc hs fun e he s hm => ?_
    have he : e ∈ (t :: post).map placed := he
    obtain ⟨w, hw, rfl⟩ := List.mem_map.1 he
    rw [pieces_placed, pieces_chain] at hm
    exact overlay_of_disjoint (hd w hw) hm

theorem Apart.eq_or_disjoint {ts : List Outline} (h : Apart ts) (ht : t ∈ ts) :
    ∀ u ∈ ts, u = t ∨ List.Disjoint u.pieces t.pieces := by
  obtain ⟨pre, post, rfl⟩ := List.append_of_mem ht
  intro u hu
  rcases List.mem_append.1 hu with hu | hu
  · exact .inr (h.disjoint (List.mem_append_left _ hu))
  · rcases List.mem_cons.1 hu with rfl | hu
    · exact .inl rfl
    · exact .inr (h.disjoint (List.mem_append_right _ hu))

theorem exists_widened_all (hp : Apart (first :: rest)) (ht : t ∈ first :: rest)
    (hw : ∃ ν, t.chain.value ν = true ∧ t.value ν = false) :
    ∃ ν, (all first rest).chain.value ν = true ∧ (all first rest).value ν = false := by
  obtain ⟨ν, hc, hv⟩ := hw
  have hall : ∀ u ∈ first :: rest, u.chain.value (t.overlay ν true) = true := by
    intro u hu
    rcases hp.eq_or_disjoint ht u hu with rfl | hd
    · rw [value_chain_overlay, hc]
    · exact value_chain_of_pieces fun s hm => overlay_of_disjoint hd hm
  refine ⟨t.overlay ν true, ?_, ?_⟩
  · by_cases hne : rest = []
    · subst hne
      rw [chain_all_single]
      exact hall first List.mem_cons_self
    · rw [chain_all _ hne]
      refine Chain.value_joined_and_of ?_
      rw [← List.map_cons (f := placed)]
      intro c hm
      obtain ⟨u, hu, rfl⟩ := List.mem_map.1 hm
      exact (value_placed u).trans (hall u hu)
  · rw [value_all, List.all_eq_false]
    refine ⟨_, List.mem_map_of_mem ht, ?_⟩
    rw [value_overlay, hv]
    decide

theorem exists_widened_any (hp : Apart (first :: rest)) (ht : t ∈ first :: rest)
    (hw : ∃ ν, t.chain.value ν = true ∧ t.value ν = false) :
    ∃ ν, (any first rest).chain.value ν = true ∧ (any first rest).value ν = false := by
  obtain ⟨ν, hc, hv⟩ := hw
  refine ⟨t.overlay ν false, ?_, ?_⟩
  · rw [chain_any, Chain.value_joined_or, ← List.map_cons (f := chain), List.any_eq_true]
    refine ⟨_, List.mem_map_of_mem (List.mem_map_of_mem ht), ?_⟩
    rw [value_chain_overlay, hc]
    rfl
  · rw [value_any, List.any_eq_false]
    intro b hb
    obtain ⟨u, hu, rfl⟩ := List.mem_map.1 hb
    have hf : u.value (t.overlay ν false) = false := by
      rcases hp.eq_or_disjoint ht u hu with rfl | hd
      · rw [value_overlay, hv]
      · exact value_of_pieces fun s hm => overlay_of_disjoint hd hm
    rw [hf]
    decide

/-- Where a parenthesis is missing and no piece comes twice, the chain accepts too much. -/
theorem exists_widened (h : ¬ t.Parenthesized) (hn : t.pieces.Nodup) :
    ∃ ν, t.chain.value ν = true ∧ t.value ν = false := by
  induction t with
  | piece sql => exact absurd (.piece sql) h
  | all first rest ih =>
    rw [pieces_all] at hn
    have hp := apart_of_nodup hn
    by_cases hs : rest ≠ [] → ∀ t ∈ first :: rest, t.placed.splits = false
    · obtain ⟨t, ht, hb⟩ : ∃ t ∈ first :: rest, ¬ t.Parenthesized := by
        by_contra hall
        push Not at hall
        exact h (.all hall hs)
      exact exists_widened_all hp ht (ih t ht hb ((List.nodup_flatMap.1 hn).1 t ht))
    · push Not at hs
      obtain ⟨hne, t, ht, hs⟩ := hs
      exact exists_widened_of_splits hp hne ht (by simpa using hs)
  | any first rest ih =>
    rw [pieces_any] at hn
    obtain ⟨t, ht, hb⟩ : ∃ t ∈ first :: rest, ¬ t.Parenthesized := by
      by_contra hall
      push Not at hall
      exact h (.any hall)
    exact exists_widened_any (apart_of_nodup hn) ht
      (ih t ht hb ((List.nodup_flatMap.1 hn).1 t ht))

end Outline

end QuerySql
