import Mathlib
import QuerySql.Proofs.ByteOrder
import QuerySql.Proofs.Records
import QuerySql.Schema.Json

/-!
# Schemas through JSON

A schema that is decoded, or built step by step, has the relations of every node in the order of the
bytes of their names, and under each name the relation inserted last. Such a schema is what the
value that it is written as decodes to (`Schema.ofJson_toJson_of_obtained`). What was inserted is
told by the history of a schema, `Schema.Obtained`.
-/

namespace QuerySql.Schema

/-! ## Nodes -/

/-- Whether the second schema is the first or stands in it, at any depth. -/
inductive Node (s : Schema) : Schema → Prop where
  | self : Node s s
  | child {t : Schema} {e : String × Schema} (parent : Node s t) (mem : e ∈ t.relations) :
      Node s e.2

theorem Node.of_mem {s t : Schema} {e : String × Schema} (mem : e ∈ s.relations)
    (h : e.2.Node t) : s.Node t := by
  induction h with
  | self => exact .child .self mem
  | child _ mem ih => exact .child ih mem

theorem sizeOf_lt_of_mem {s : Schema} {e : String × Schema} (h : e ∈ s.relations) :
    sizeOf e.2 < sizeOf s := by
  have hlt := List.sizeOf_lt_of_mem h
  obtain ⟨name, child⟩ := e
  obtain ⟨table, kind, referencedTable, referencedColumn, primaryColumn, columns, relations⟩ := s
  simp only [mk.sizeOf_spec, Prod.mk.sizeOf_spec] at *
  omega

/-! ## Written and read back -/

theorem relationsToJson_eq_map (relations : List (String × Schema)) :
    relationsToJson relations = relations.map fun e => (e.1, toJson e.2) := by
  induction relations with
  | nil => rfl
  | cons e rest ih => rw [relationsToJson, ih, List.map_cons]

/-- The draft with one more field, whose relations are decoded like the whole. -/
def Draft.take (source : Source) (draft : Draft) (field : String) (x : Document) :
    Decode.Result Draft :=
  draft.put source field x fun y _ => decode source y

theorem decode_eq (source : Source) (d : Document) :
    decode source d =
      (Decode.record source shape {} d fun draft field x _ => Draft.take source draft field x)
        >>= Draft.finish := by
  rw [decode]
  rfl

theorem decodeColumn_ofJson (name : String) :
    decodeColumn .value (Document.ofJson (columnToJson name)) = .ok name := by
  have hfields : ∀ e ∈ [("name", Json.string name)], e.1 ∈ columnShape.fields := by
    simp [columnShape]
  rw [decodeColumn, columnToJson, Decode.record_ofJson hfields]
  rfl

theorem items_columns (columns : List String) :
    Decode.items (Document.ofJson (.array (columns.map columnToJson)))
      (fun y _ => decodeColumn .value y) = .ok columns := by
  rw [Decode.items_ofJson]
  exact mapM_map_eq_ok fun name _ => decodeColumn_ofJson name

theorem entries_relations {relations : List (String × Schema)}
    (h : ∀ e ∈ relations, decode .value (Document.ofJson (toJson e.2)) = .ok e.2) :
    Decode.entries (Document.ofJson (.object (relationsToJson relations)))
      (fun y _ => decode .value y) = .ok relations := by
  rw [relationsToJson_eq_map]
  exact Decode.entries_ofJson_map h

def members (s : Schema) : List (String × Json) :=
  [("tableName", .string s.table)]
    ++ optionalEntry "type" (s.kind.map RelationKind.name)
    ++ optionalEntry "referencedTableName" s.referencedTable
    ++ optionalEntry "referencedColumn" s.referencedColumn
    ++ optionalEntry "primaryColumn" s.primaryColumn
    ++ [("columns", .array (s.columns.map columnToJson))]
    ++ if s.relations.isEmpty then [] else [("relations", .object (relationsToJson s.relations))]

theorem toJson_eq (s : Schema) : s.toJson = .object s.members := by
  cases s
  rfl

theorem name_of_mem_optionalEntry {name : String} {value : Option String} {e : String × Json}
    (h : e ∈ optionalEntry name value) : e.1 = name := by
  cases value with
  | none => cases h
  | some s => rw [List.mem_singleton.1 h]

theorem name_mem_fields {s : Schema} {e : String × Json} (h : e ∈ s.members) :
    e.1 ∈ shape.fields := by
  simp only [members, List.mem_append, List.mem_singleton] at h
  rcases h with (((((rfl | h) | h) | h) | h) | rfl) | h
  · simp [shape]
  · simp [shape, name_of_mem_optionalEntry h]
  · simp [shape, name_of_mem_optionalEntry h]
  · simp [shape, name_of_mem_optionalEntry h]
  · simp [shape, name_of_mem_optionalEntry h]
  · simp [shape]
  · split at h
    · cases h
    · simp [shape, List.mem_singleton.1 h]

theorem take_members {s : Schema}
    (h : ∀ e ∈ s.relations, decode .value (Document.ofJson (toJson e.2)) = .ok e.2) :
    s.members.foldlM (fun draft e => Draft.take .value draft e.1 (Document.ofJson e.2)) {}
      = .ok {
        table := some s.table
        kind := s.kind.map some
        referencedTable := s.referencedTable.map some
        referencedColumn := s.referencedColumn.map some
        primaryColumn := s.primaryColumn.map some
        columns := some s.columns
        relations := if s.relations.isEmpty then none else some s.relations } := by
  obtain ⟨table, kind, referencedTable, referencedColumn, primaryColumn, columns, relations⟩ := s
  let run (draft : Draft) (e : String × Json) : Decode.Result Draft :=
    Draft.take .value draft e.1 (Document.ofJson e.2)
  -- Each entry sets the next field and leaves the ones before it.
  let d₁ : Draft := { table := some table }
  let d₂ : Draft := { d₁ with kind := kind.map some }
  let d₃ : Draft := { d₂ with referencedTable := referencedTable.map some }
  let d₄ : Draft := { d₃ with referencedColumn := referencedColumn.map some }
  let d₅ : Draft := { d₄ with primaryColumn := primaryColumn.map some }
  let d₆ : Draft := { d₅ with columns := some columns }
  have h₁ : [("tableName", Json.string table)].foldlM run {} = .ok d₁ := rfl
  have h₂ : (optionalEntry "type" (kind.map RelationKind.name)).foldlM run d₁ = .ok d₂ := by
    cases kind with
    | none => rfl
    | some k => cases k <;> rfl
  have h₃ : (optionalEntry "referencedTableName" referencedTable).foldlM run d₂ = .ok d₃ := by
    cases referencedTable <;> rfl
  have h₄ : (optionalEntry "referencedColumn" referencedColumn).foldlM run d₃ = .ok d₄ := by
    cases referencedColumn <;> rfl
  have h₅ : (optionalEntry "primaryColumn" primaryColumn).foldlM run d₄ = .ok d₅ := by
    cases primaryColumn <;> rfl
  have h₆ : [("columns", Json.array (columns.map columnToJson))].foldlM run d₅ = .ok d₆ := by
    change (return { d₅ with columns := ← some <$> Decode.items _ _ }) >>= _ = _
    rw [items_columns]
    rfl
  rw [members, List.foldlM_append, List.foldlM_append, List.foldlM_append, List.foldlM_append,
    List.foldlM_append, List.foldlM_append]
  rw [bind_of_ok h₁, bind_of_ok h₂, bind_of_ok h₃, bind_of_ok h₄, bind_of_ok h₅, bind_of_ok h₆]
  cases relations with
  | nil => rfl
  | cons e rest =>
    change (return { d₆ with relations := ← some <$> Decode.entries _ _ }) >>= _ = _
    rw [entries_relations h]
    rfl

/-- A schema is read back from what it is written as where the relations of every node are sorted:
reading sorts them again. -/
theorem decode_ofJson_toJson {s : Schema}
    (h : ∀ t, s.Node t → SortedEntries.Increasing t.relations) :
    decode .value (Document.ofJson s.toJson) = .ok s := by
  have hbelow : ∀ e ∈ s.relations, decode .value (Document.ofJson (toJson e.2)) = .ok e.2 :=
    fun e he => decode_ofJson_toJson fun t ht => h t (ht.of_mem he)
  have hrelations : SortedEntries.ofList
      ((if s.relations.isEmpty then none else some s.relations).getD []) = s.relations := by
    split
    · rename_i hempty
      rw [List.isEmpty_iff.1 hempty]
      rfl
    · exact SortedEntries.ofList_eq_self (h s .self)
  have hjoin {α : Type} (o : Option α) : (o.map some).join = o := by
    cases o <;> rfl
  rw [decode_eq, toJson_eq, Decode.record_ofJson fun e he => name_mem_fields he,
    take_members hbelow, bind_of_ok rfl, Draft.finish]
  simp only [hjoin, Option.getD_some, hrelations]
  cases s
  rfl
termination_by sizeOf s
decreasing_by exact sizeOf_lt_of_mem he

/-! ## What was inserted -/

/-- The relations that a document declares, in document order. -/
def declared (source : Source) (d : Document) : List (String × Schema) :=
  match Entries.get? "relations" (Decode.fieldsOf shape d) with
  | some x => Decode.membersOf (decode source) x
  | none => []

theorem Draft.of_take_relations {source : Source} {draft draft' : Draft} {x : Document}
    (h : draft.take source "relations" x = .ok draft') :
    draft.relations = none ∧ ∃ relations,
      Decode.entries x (fun y _ => decode source y) = .ok relations
        ∧ draft'.relations = some relations := by
  obtain ⟨relations, hrelations, h⟩ := exists_of_bind_eq_ok h
  cases h
  exact Decode.of_once hrelations

theorem Draft.relations_of_take {source : Source} {draft draft' : Draft} {field : String}
    {x : Document} (hfield : field ≠ "relations") (h : draft.take source field x = .ok draft') :
    draft'.relations = draft.relations := by
  unfold take put at h
  split at h
  case h_7 => exact (hfield rfl).elim
  case h_8 => cases h; rfl
  all_goals
    obtain ⟨value, -, h⟩ := exists_of_bind_eq_ok h
    cases h
    rfl

theorem relations_of_decode {source : Source} {d : Document} {s : Schema}
    (h : decode source d = .ok s) : s.relations = SortedEntries.ofList (declared source d) := by
  rw [decode_eq] at h
  obtain ⟨draft, hrecord, h⟩ := exists_of_bind_eq_ok h
  have hrelations : s.relations = SortedEntries.ofList (draft.relations.getD []) := by
    unfold Draft.finish at h
    split at h
    · cases h
    · cases h; rfl
  have hfield := Decode.field_of_run Draft.relations "relations" Draft.of_take_relations
    Draft.relations_of_take rfl (Decode.run_of_record hrecord)
  rw [hrelations, declared]
  rcases hfield with ⟨hget, hnone⟩ | ⟨x, relations, hget, hread, hsome⟩
  · rw [hget, hnone]
    rfl
  · rw [hget, hsome, Decode.entries_eq_membersOf hread]
    rfl

/-- A schema that is decoded or built step by step, with the relations that were inserted into it,
the last one at the end. -/
inductive Obtained : List (String × Schema) → Schema → Prop where
  | decoded {source : Source} {d : Document} {s : Schema} (h : decode source d = .ok s) :
      Obtained (declared source d) s
  | ofTable (table : String) : Obtained [] (ofTable table)
  | columns {inserted : List (String × Schema)} {s : Schema} (h : Obtained inserted s)
      (names : List String) : Obtained inserted (s.withColumns names)
  | relation {inserted others : List (String × Schema)} {s child : Schema}
      (h : Obtained inserted s) (name : String) (hchild : Obtained others child) :
      Obtained (inserted ++ [(name, child)]) (s.withRelation name child)
  | joined {inserted : List (String × Schema)} {s : Schema} (h : Obtained inserted s)
      (kind : RelationKind) (table column primary : String) :
      Obtained inserted (s.joined kind table column primary)

/-- The relations are kept sorted, however they came to be there. -/
theorem Obtained.relations_eq {inserted : List (String × Schema)} {s : Schema}
    (h : Obtained inserted s) : s.relations = SortedEntries.ofList inserted := by
  induction h with
  | decoded h => exact relations_of_decode h
  | ofTable table => rfl
  | columns _ names ih => exact ih
  | relation _ name _ ih _ =>
    rw [SortedEntries.ofList_concat, ← ih]
    rfl
  | joined _ kind table column primary ih => exact ih

theorem Obtained.child {inserted : List (String × Schema)} {s : Schema} (h : Obtained inserted s)
    {e : String × Schema} (he : e ∈ inserted) : ∃ others, Obtained others e.2 := by
  induction h with
  | @decoded source d _ _ =>
    unfold declared at he
    split at he
    · obtain ⟨x, hx⟩ := Decode.exists_of_mem_membersOf he
      exact ⟨_, .decoded hx⟩
    · cases he
  | ofTable table => cases he
  | columns _ names ih => exact ih he
  | relation _ name hchild ih _ =>
    rcases List.mem_append.1 he with he | he
    · exact ih he
    · cases List.mem_singleton.1 he
      exact ⟨_, hchild⟩
  | joined _ kind table column primary ih => exact ih he

theorem Obtained.node {inserted : List (String × Schema)} {s t : Schema} (h : Obtained inserted s)
    (ht : s.Node t) : ∃ others, Obtained others t := by
  induction ht with
  | self => exact ⟨_, h⟩
  | child _ mem ih =>
    obtain ⟨others, hothers⟩ := ih
    rw [hothers.relations_eq] at mem
    exact hothers.child (SortedEntries.mem_of_mem_ofList mem)

theorem Obtained.of_ofText {text : String} {s : Schema} (h : ofText text = .ok s) :
    Obtained (declared .text (Document.scan 0 text.toList).piece) s :=
  .decoded (Decode.of_ofText h)

theorem Obtained.of_ofJson {v : Json} {s : Schema} (h : ofJson v = .ok s) :
    Obtained (declared .value (Document.ofJson v)) s := .decoded h

theorem Obtained.exists_build (table : String) {steps : List Step}
    (h : ∀ name child, Step.relation name child ∈ steps → ∃ others, Obtained others child) :
    ∃ inserted, Obtained inserted (build table steps) := by
  refine List.foldlRecOn steps Step.apply (motive := fun s => ∃ inserted, Obtained inserted s)
    ⟨_, .ofTable table⟩ ?_
  rintro s ⟨inserted, hs⟩ step hstep
  cases step with
  | columns names => exact ⟨_, hs.columns names⟩
  | relation name child =>
    obtain ⟨others, hchild⟩ := h name child hstep
    exact ⟨_, hs.relation name hchild⟩
  | joined kind table column primary => exact ⟨_, hs.joined kind table column primary⟩

/-- Whatever its history, a schema is what its JSON value decodes to. At every node, the names of
the relations increase byte by byte, and each holds the schema that was inserted last. What is
decoded, from a value or a text, has a history, and so has what steps build out of schemas that
have one. -/
theorem ofJson_toJson_of_obtained :
    (∀ {inserted : List (String × Schema)} {s : Schema}, Obtained inserted s →
      ofJson s.toJson = .ok s ∧
        ∀ t, s.Node t →
          (t.relations.Pairwise fun a b => Text.bytes a.1 < Text.bytes b.1) ∧
          (∃ others, Obtained others t) ∧
          ∀ others, Obtained others t →
            ∀ name, Entries.get? name t.relations = Entries.get? name others.reverse) ∧
    (∀ s : Schema, ((∃ v, ofJson v = .ok s) ∨ ∃ text, ofText text = .ok s) →
      ∃ inserted, Obtained inserted s) ∧
    ∀ (table : String) (steps : List Step),
      (∀ name child, Step.relation name child ∈ steps → ∃ others, Obtained others child) →
      ∃ inserted, Obtained inserted (build table steps) := by
  refine ⟨fun {inserted s} h => ?_, ?_, fun table steps => Obtained.exists_build table⟩
  · have hincreasing : ∀ t, s.Node t → SortedEntries.Increasing t.relations := by
      intro t ht
      obtain ⟨others, hothers⟩ := h.node ht
      rw [hothers.relations_eq]
      exact SortedEntries.increasing_ofList others
    refine ⟨decode_ofJson_toJson hincreasing, fun t ht => ⟨?_, h.node ht, ?_⟩⟩
    · exact (hincreasing t ht).imp Text.lt_iff_bytes_lt.1
    · intro others hothers name
      rw [hothers.relations_eq, SortedEntries.get?_ofList]
  · rintro s (⟨v, h⟩ | ⟨text, h⟩)
    · exact ⟨_, .of_ofJson h⟩
    · exact ⟨_, .of_ofText h⟩

/-- The relations were read in another order, and one of them was replaced. -/
theorem ofJson_toJson_of_obtained_user :
    let v := Json.object [("tableName", .string "user"), ("relations", .object [
      ("role", .object [("tableName", .string "guest")]),
      ("order", .object [("tableName", .string "order")])])]
    let user : Schema := { ofTable "user" with
      relations := [("order", ofTable "order"), ("role", ofTable "role")] }
    (ofJson v).map (fun s => s.withRelation "role" (ofTable "role")) = .ok user
      ∧ ofJson user.toJson = .ok user
      ∧ Entries.get? "role" user.relations = some (ofTable "role")
      ∧ Text.bytes "order" < Text.bytes "role" := by
  intro v user
  have hread : ofJson v = .ok { ofTable "user" with
      relations := [("order", ofTable "order"), ("role", ofTable "guest")] } := by cbv
  have h := (Obtained.of_ofJson hread).relation "role" (.ofTable "role")
  obtain ⟨hhistory, -, -⟩ := ofJson_toJson_of_obtained
  obtain ⟨hround, hnodes⟩ := hhistory h
  obtain ⟨hbytes, -, hlast⟩ := hnodes user .self
  refine ⟨by rw [hread]; rfl, hround, ?_, ?_⟩
  · rw [hlast _ h, List.reverse_concat]
    rfl
  · exact List.rel_of_pairwise_cons hbytes List.mem_cons_self

end QuerySql.Schema
