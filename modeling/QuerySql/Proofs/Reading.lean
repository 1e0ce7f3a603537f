import Mathlib.Data.List.Flatten
import QuerySql.Proofs.Outline

/-!
# Reading the text of a formula

`Formula.outline` is what the text of a formula holds: parts that write nothing are gone, and of the
fields that write the same only the first is left. The text is that of the outline's chain
(`predicate_eq`), so the chain says which characters of the text are pieces.

`Formula.value` is what the formula asks for, of all its parts that write something. Dropping a
field that writes the same as another changes nothing where both have the same value
(`Consistent`).
-/

namespace QuerySql

def Predicate.nothing : Predicate := ⟨"", false⟩

namespace Outline

def predicate (t : Outline) : Predicate := ⟨t.chain.text, t.isAlternatives⟩

def node (join : Outline → List Outline → Outline) : List Outline → Option Outline
  | [] => none
  | t :: rest => some (join t rest)

theorem node_eq_none {join : Outline → List Outline → Outline} {ts : List Outline} :
    node join ts = none ↔ ts = [] := by
  cases ts <;> simp [node]

end Outline

namespace Formula

@[elab_as_elim, induction_eliminator]
theorem induction {P : Formula → Prop} (leaf : ∀ sql, P (leaf sql))
    (all : ∀ parts, (∀ f ∈ parts, P f) → P (all parts))
    (fields : ∀ parts, (∀ f ∈ parts, P f) → P (fields parts))
    (any : ∀ parts, (∀ f ∈ parts, P f) → P (any parts)) : ∀ f, P f
  | .leaf sql => leaf sql
  | .all parts => all parts fun f _ => induction leaf all fields any f
  | .fields parts => fields parts fun f _ => induction leaf all fields any f
  | .any parts => any parts fun f _ => induction leaf all fields any f

mutual

/-- What the text of the formula holds; none where it is empty. -/
def outline : Formula → Option Outline
  | leaf sql => if sql.isEmpty then none else some (.piece sql)
  | all parts => Outline.node .all (outlines parts)
  | fields parts => Outline.node .all (distinctBy Outline.predicate (outlines parts))
  | any parts => Outline.node .any (outlines parts)

def outlines : List Formula → List Outline
  | [] => []
  | f :: rest => (outline f).toList ++ outlines rest

end

mutual

def pieces : Formula → List String
  | leaf sql => [sql]
  | all parts | fields parts | any parts => piecesOf parts

def piecesOf : List Formula → List String
  | [] => []
  | f :: rest => pieces f ++ piecesOf rest

end

mutual

/-- The value of the formula where the pieces have the values `ν`; none where it says nothing. -/
def value (ν : String → Bool) : Formula → Option Bool
  | leaf sql => if sql.isEmpty then none else some (ν sql)
  | all parts | fields parts => Connective.and.join (values ν parts)
  | any parts => Connective.or.join (values ν parts)

def values (ν : String → Bool) : List Formula → List Bool
  | [] => []
  | f :: rest => (value ν f).toList ++ values ν rest

end

/-- Fields of one object that write the same have the same value. -/
inductive Consistent (ν : String → Bool) : Formula → Prop where
  | leaf (sql : String) : Consistent ν (.leaf sql)
  | all {parts : List Formula} (each : ∀ f ∈ parts, Consistent ν f) : Consistent ν (.all parts)
  | fields {parts : List Formula} (each : ∀ f ∈ parts, Consistent ν f)
      (same : ∀ f ∈ parts, ∀ g ∈ parts, f.predicate = g.predicate → f.value ν = g.value ν) :
      Consistent ν (.fields parts)
  | any {parts : List Formula} (each : ∀ f ∈ parts, Consistent ν f) : Consistent ν (.any parts)

variable {ν : String → Bool} {f : Formula} {parts : List Formula} {t : Outline}

theorem outlines_eq (parts : List Formula) : outlines parts = parts.filterMap outline := by
  induction parts with
  | nil => rfl
  | cons f rest ih => rw [outlines, ih]; cases h : f.outline <;> simp [h]

theorem piecesOf_eq (parts : List Formula) : piecesOf parts = parts.flatMap pieces := by
  induction parts with
  | nil => rfl
  | cons f rest ih => rw [piecesOf, ih, List.flatMap_cons]

theorem values_eq (parts : List Formula) : values ν parts = parts.filterMap (value ν) := by
  induction parts with
  | nil => rfl
  | cons f rest ih => rw [values, ih]; cases h : f.value ν <;> simp [h]

theorem mem_outlines : t ∈ outlines parts ↔ ∃ f ∈ parts, f.outline = some t := by
  rw [outlines_eq, List.mem_filterMap]

theorem mem_values {b : Bool} : b ∈ values ν parts ↔ ∃ f ∈ parts, f.value ν = some b := by
  rw [values_eq, List.mem_filterMap]

end Formula

/-! ## The text -/

namespace Outline

theorem pieces_node_all {ts : List Outline} {t : Outline} (h : node .all ts = some t) :
    t.pieces = ts.flatMap pieces := by
  cases ts with
  | nil => cases h
  | cons first rest => cases h; exact pieces_all first rest

theorem pieces_node_any {ts : List Outline} {t : Outline} (h : node .any ts = some t) :
    t.pieces = ts.flatMap pieces := by
  cases ts with
  | nil => cases h
  | cons first rest => cases h; exact pieces_any first rest

theorem sqlWithin_predicate (t : Outline) : t.predicate.sqlWithin = t.placed.text := by
  unfold Predicate.sqlWithin predicate placed part
  cases t.isAlternatives <;> rfl

theorem predicate_any (first : Outline) (rest : List Outline) :
    (any first rest).predicate
      = ⟨String.intercalate " OR " (((first :: rest).map predicate).map Predicate.sql),
          1 < (first :: rest).length⟩ := by
  have ht : (any first rest).chain.text
      = String.intercalate " OR " (((first :: rest).map predicate).map Predicate.sql) := by
    rw [chain_any, Chain.text_joined, ← List.map_cons (f := chain), List.map_map, List.map_map]
    rfl
  rw [predicate, ht]
  cases rest <;> simp [isAlternatives]

theorem predicate_all (first : Outline) (rest : List Outline) :
    (all first rest).predicate
      = Predicate.ofSql (String.intercalate " AND " (((first :: rest).map predicate).map
          (if 1 < (first :: rest).length then Predicate.sqlWithin else Predicate.sql))) := by
  cases rest with
  | nil => rw [predicate, chain_all_single]; simp [Predicate.ofSql, predicate, isAlternatives]
  | cons second rest =>
    have hl : 1 < (first :: second :: rest).length := by simp
    rw [predicate, chain_all _ (List.cons_ne_nil _ _), Chain.text_joined,
      ← List.map_cons (f := placed), if_pos hl, List.map_map, List.map_map]
    simp only [Function.comp_def, sqlWithin_predicate]
    rfl

end Outline

namespace Predicate

variable {ps : List Predicate} {ts : List Outline}

theorem any_eq_node (h : nonempty ps = ts.map Outline.predicate) :
    any ps = (Outline.node .any ts).elim nothing Outline.predicate := by
  unfold any
  rw [h]
  cases ts with
  | nil => rfl
  | cons first rest =>
    simp only [Outline.node, Option.elim_some, Outline.predicate_any, List.length_map]

theorem all_eq_node (h : nonempty ps = ts.map Outline.predicate) :
    all ps = (Outline.node .all ts).elim nothing Outline.predicate := by
  unfold all
  rw [h]
  cases ts with
  | nil => rfl
  | cons first rest =>
    simp only [Outline.node, Option.elim_some, Outline.predicate_all, List.length_map]

theorem nonempty_distinct (ps : List Predicate) : nonempty (distinct ps) = distinct (nonempty ps) :=
  filter_distinctBy (fun _ _ h => congrArg (fun p => !p.isEmpty) h) ps

end Predicate

namespace Formula

variable {ν : String → Bool} {f : Formula} {parts : List Formula} {t : Outline}

theorem pieces_ne_empty (h : f.outline = some t) : ∀ s ∈ t.pieces, s ≠ "" := by
  -- each piece of a node is one of a part
  have hnode : ∀ {parts : List Formula} {ts : List Outline}, ts ⊆ outlines parts →
      (∀ f ∈ parts, ∀ t, f.outline = some t → ∀ s ∈ t.pieces, s ≠ "") →
      ∀ s ∈ ts.flatMap Outline.pieces, s ≠ "" := by
    intro parts ts hts ih s hs
    obtain ⟨u, hu, hs⟩ := List.mem_flatMap.1 hs
    obtain ⟨f, hf, ho⟩ := mem_outlines.1 (hts hu)
    exact ih f hf u ho s hs
  induction f generalizing t with
  | leaf sql =>
    rw [outline] at h
    split at h
    · cases h
    · rename_i hs
      cases h
      intro s hm
      rw [List.mem_singleton.1 hm]
      exact fun e => hs (by rw [e]; rfl)
  | all parts ih =>
    rw [Outline.pieces_node_all h]
    exact hnode (fun _ hm => hm) fun f hf t => ih f hf
  | fields parts ih =>
    rw [Outline.pieces_node_all h]
    exact hnode (fun _ => mem_of_mem_distinctBy) fun f hf t => ih f hf
  | any parts ih =>
    rw [Outline.pieces_node_any h]
    exact hnode (fun _ hm => hm) fun f hf t => ih f hf

theorem text_ne_empty (h : f.outline = some t) : t.chain.text ≠ "" :=
  Chain.text_ne_empty fun s hs => pieces_ne_empty h s (Outline.pieces_chain t ▸ hs)

theorem nonempty_predicates
    (h : ∀ f ∈ parts, f.predicate = f.outline.elim Predicate.nothing Outline.predicate) :
    Predicate.nonempty (predicates parts) = (outlines parts).map Outline.predicate := by
  induction parts with
  | nil => rfl
  | cons f rest ih =>
    have hf := h f List.mem_cons_self
    have hr := ih fun g hg => h g (List.mem_cons_of_mem _ hg)
    rw [predicates, outlines, List.map_append, ← hr, hf]
    cases ho : f.outline with
    | none => rfl
    | some t =>
      have hne : (!t.predicate.isEmpty) = true := by
        simp [Predicate.isEmpty, Outline.predicate, text_ne_empty ho]
      exact List.filter_cons_of_pos hne

/-- The text of a formula is that of its outline's chain; without outline it is empty. -/
theorem predicate_eq (f : Formula) :
    f.predicate = f.outline.elim Predicate.nothing Outline.predicate := by
  induction f with
  | leaf sql =>
    rw [predicate, outline]
    split
    · rename_i hs
      rw [String.isEmpty_iff.1 hs]
      rfl
    · rfl
  | all parts ih => rw [predicate, Predicate.all_eq_node (nonempty_predicates ih), outline]
  | fields parts ih =>
    have h : Predicate.nonempty (distinct (predicates parts))
        = (distinctBy Outline.predicate (outlines parts)).map Outline.predicate := by
      rw [Predicate.nonempty_distinct, nonempty_predicates ih]
      exact (map_distinctBy id Outline.predicate _).symm
    rw [predicate, Predicate.all_eq_node h, outline]
  | any parts ih => rw [predicate, Predicate.any_eq_node (nonempty_predicates ih), outline]

theorem sql_eq (f : Formula) : f.sql = f.outline.elim "" fun t => t.chain.text := by
  rw [sql, predicate_eq]
  cases f.outline <;> rfl

theorem sql_eq_empty_iff : f.sql = "" ↔ f.outline = none := by
  rw [sql_eq]
  cases h : f.outline with
  | none => simp
  | some t => simpa using text_ne_empty h

theorem outlines_eq_nil_iff : outlines parts = [] ↔ ∀ f ∈ parts, f.sql = "" := by
  rw [outlines_eq, List.filterMap_eq_nil_iff]
  exact forall₂_congr fun _ _ => sql_eq_empty_iff.symm

theorem sql_leaf (sql : String) : (leaf sql).sql = sql := rfl

theorem sql_all_eq_empty : (all parts).sql = "" ↔ ∀ f ∈ parts, f.sql = "" := by
  rw [sql_eq_empty_iff, outline, Outline.node_eq_none, outlines_eq_nil_iff]

theorem sql_fields_eq_empty : (fields parts).sql = "" ↔ ∀ f ∈ parts, f.sql = "" := by
  rw [sql_eq_empty_iff, outline, Outline.node_eq_none, distinctBy_eq_nil_iff, outlines_eq_nil_iff]

theorem sql_any_eq_empty : (any parts).sql = "" ↔ ∀ f ∈ parts, f.sql = "" := by
  rw [sql_eq_empty_iff, outline, Outline.node_eq_none, outlines_eq_nil_iff]

/-! ## The value -/

theorem values_eq_nil_iff (h : ∀ f ∈ parts, f.value ν = none ↔ f.outline = none) :
    values ν parts = [] ↔ outlines parts = [] := by
  rw [values_eq, outlines_eq, List.filterMap_eq_nil_iff, List.filterMap_eq_nil_iff]
  exact forall₂_congr h

theorem value_eq_none_iff : f.value ν = none ↔ f.outline = none := by
  induction f with
  | leaf sql => rw [value, outline]; split <;> simp
  | all parts ih =>
    rw [value, outline, Connective.join_eq_none, Outline.node_eq_none, values_eq_nil_iff ih]
  | fields parts ih =>
    rw [value, outline, Connective.join_eq_none, Outline.node_eq_none, distinctBy_eq_nil_iff,
      values_eq_nil_iff ih]
  | any parts ih =>
    rw [value, outline, Connective.join_eq_none, Outline.node_eq_none, values_eq_nil_iff ih]

theorem map_value_node_all (ts : List Outline) :
    (Outline.node .all ts).map (Outline.value ν)
      = Connective.and.join (ts.map (Outline.value ν)) := by
  cases ts with
  | nil => rfl
  | cons first rest => exact congrArg some (Outline.value_all first rest)

theorem map_value_node_any (ts : List Outline) :
    (Outline.node .any ts).map (Outline.value ν)
      = Connective.or.join (ts.map (Outline.value ν)) := by
  cases ts with
  | nil => rfl
  | cons first rest => exact congrArg some (Outline.value_any first rest)

theorem values_eq_map (h : ∀ f ∈ parts, f.value ν = f.outline.map (Outline.value ν)) :
    values ν parts = (outlines parts).map (Outline.value ν) := by
  rw [values_eq, outlines_eq, List.map_filterMap]
  exact List.filterMap_congr h

theorem mem_map_value_distinctBy
    (same : ∀ f ∈ parts, ∀ g ∈ parts, f.predicate = g.predicate → f.value ν = g.value ν)
    (h : ∀ f ∈ parts, f.value ν = f.outline.map (Outline.value ν)) (b : Bool) :
    b ∈ (outlines parts).map (Outline.value ν)
      ↔ b ∈ (distinctBy Outline.predicate (outlines parts)).map (Outline.value ν) := by
  constructor
  · intro hb
    obtain ⟨t, ht, rfl⟩ := List.mem_map.1 hb
    obtain ⟨u, hu, hp⟩ := exists_mem_distinctBy Outline.predicate ht
    obtain ⟨f, hf, hft⟩ := mem_outlines.1 ht
    obtain ⟨g, hg, hgu⟩ := mem_outlines.1 (mem_of_mem_distinctBy hu)
    have hpred : g.predicate = f.predicate := by
      rw [predicate_eq, predicate_eq, hft, hgu]
      exact hp
    have hv := same g hg f hf hpred
    rw [h g hg, h f hf, hgu, hft] at hv
    exact List.mem_map.2 ⟨u, hu, Option.some.inj hv⟩
  · intro hb
    obtain ⟨u, hu, rfl⟩ := List.mem_map.1 hb
    exact List.mem_map_of_mem (mem_of_mem_distinctBy hu)

/-- Nothing of the value is lost with the parts that are left out. -/
theorem Consistent.value_eq (h : f.Consistent ν) : f.value ν = f.outline.map (Outline.value ν) := by
  induction h with
  | leaf sql => rw [value, outline]; split <;> rfl
  | all _ ih => rw [value, outline, map_value_node_all, values_eq_map ih]
  | fields _ same ih =>
    rw [value, outline, map_value_node_all, values_eq_map ih]
    exact Connective.join_congr (mem_map_value_distinctBy same ih)
  | any _ ih => rw [value, outline, map_value_node_any, values_eq_map ih]

/-- What is left asks for no more than the formula. -/
theorem value_outline_of_value (h : f.outline = some t) (hv : f.value ν = some true) :
    t.value ν = true := by
  -- each part that is left is true if all parts are
  have hpart : ∀ {parts : List Formula}, Connective.and.join (values ν parts) = some true →
      (∀ f ∈ parts, ∀ t, f.outline = some t → f.value ν = some true → t.value ν = true) →
      ∀ u ∈ outlines parts, u.value ν = true := by
    intro parts hj ih u hu
    obtain ⟨f, hf, ho⟩ := mem_outlines.1 hu
    obtain ⟨b, hb⟩ := Option.ne_none_iff_exists'.1 fun e =>
      Option.some_ne_none u (ho.symm.trans (value_eq_none_iff.1 e))
    have hb' : b = true := Connective.join_and_eq_true hj b (mem_values.2 ⟨f, hf, hb⟩)
    exact ih f hf u ho (hb' ▸ hb)
  have hall : ∀ {ts : List Outline} {t : Outline}, Outline.node .all ts = some t →
      (∀ u ∈ ts, u.value ν = true) → t.value ν = true := by
    intro ts t h hts
    cases ts with
    | nil => cases h
    | cons first rest =>
      cases h
      rw [Outline.value_all, List.all_eq_true]
      intro b hb
      obtain ⟨u, hu, rfl⟩ := List.mem_map.1 hb
      exact hts u hu
  induction f generalizing t with
  | leaf sql =>
    rw [outline] at h
    rw [value] at hv
    split at h
    · cases h
    · rename_i hs
      cases h
      rw [if_neg hs] at hv
      exact Option.some.inj hv
  | all parts ih => exact hall h (hpart hv fun f hf t => ih f hf)
  | fields parts ih =>
    exact hall h fun u hu => hpart hv (fun f hf t => ih f hf) u (mem_of_mem_distinctBy hu)
  | any parts ih =>
    obtain ⟨f, hf, hfv⟩ := mem_values.1 (Connective.join_or_eq_true hv)
    obtain ⟨u, hu⟩ := Option.ne_none_iff_exists'.1 fun e =>
      Option.some_ne_none true (hfv.symm.trans (value_eq_none_iff.2 e))
    have hmem : u ∈ outlines parts := mem_outlines.2 ⟨f, hf, hu⟩
    rw [outline] at h
    cases ho : outlines parts with
    | nil => rw [ho] at hmem; cases hmem
    | cons first rest =>
      rw [ho] at h hmem
      cases h
      rw [Outline.value_any, List.any_eq_true]
      exact ⟨_, List.mem_map_of_mem hmem, ih f hf hu hfv⟩

theorem flatMap_pieces_sublist
    (h : ∀ f ∈ parts, ∀ t, f.outline = some t → t.pieces.Sublist f.pieces) :
    ((outlines parts).flatMap Outline.pieces).Sublist (piecesOf parts) := by
  induction parts with
  | nil => exact .slnil
  | cons f rest ih =>
    have hf := h f List.mem_cons_self
    have hr := ih fun g hg => h g (List.mem_cons_of_mem _ hg)
    rw [outlines, piecesOf, List.flatMap_append]
    refine List.Sublist.append ?_ hr
    cases ho : f.outline with
    | none => exact List.nil_sublist _
    | some t => simpa using hf t ho

/-- The pieces that are left are pieces of the formula, in their order. -/
theorem pieces_outline_sublist (h : f.outline = some t) : t.pieces.Sublist f.pieces := by
  induction f generalizing t with
  | leaf sql =>
    rw [outline] at h
    split at h
    · cases h
    · cases h; exact .refl _
  | all parts ih =>
    rw [Outline.pieces_node_all h]
    exact flatMap_pieces_sublist fun f hf t => ih f hf
  | fields parts ih =>
    rw [Outline.pieces_node_all h]
    exact ((distinctBy_sublist _ _).flatMap _).trans
      (flatMap_pieces_sublist fun f hf t => ih f hf)
  | any parts ih =>
    rw [Outline.pieces_node_any h]
    exact flatMap_pieces_sublist fun f hf t => ih f hf

end Formula

end QuerySql
