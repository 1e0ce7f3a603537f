import Mathlib
import QuerySql.Proofs.Records
import QuerySql.Proofs.Unambiguous

/-!
# Requests through JSON

What a request is written as is read back as the same request, with the trees and the objects in
the filter in the order in which they were (`Request.ofJson_toJson`). Two things are asked of the
request: no tree and no object repeats a name (`Request.NamesDistinct`), and the filter is not null,
which is read as no filter. Both hold of every request that is read, from a value or from a text.
-/

namespace QuerySql

/-! ## Values that repeat no name -/

/-- Whether no object in the value repeats a name, at any depth. -/
inductive Json.NamesDistinct : Json → Prop where
  | null : NamesDistinct .null
  | bool (b : Bool) : NamesDistinct (.bool b)
  | number (n : Number) : NamesDistinct (.number n)
  | string (s : String) : NamesDistinct (.string s)
  | array {items : List Json} (below : ∀ v ∈ items, NamesDistinct v) :
      NamesDistinct (.array items)
  | object {entries : List (String × Json)} (nodup : (Entries.names entries).Nodup)
      (below : ∀ e ∈ entries, NamesDistinct e.2) : NamesDistinct (.object entries)

namespace Document

theorem readItems_eq_mapM (items : List Document) : readItems items = items.mapM read := by
  induction items with
  | nil => rfl
  | cons d rest ih => rw [readItems, ih, List.mapM_cons]

theorem readMembers_eq_mapM (members : List (Document × Document)) :
    readMembers members = members.mapM fun m => do
      let name ← memberName m.1
      let value ← read m.2
      return (name, value) := by
  induction members with
  | nil => rfl
  | cons m rest ih =>
    obtain ⟨name, d⟩ := m
    rw [readMembers, ih, List.mapM_cons]
    simp only [bind_assoc, pure_bind]

/-- A value is read as it is where reading need not choose between two values of one name. -/
theorem read_ofJson {v : Json} (h : v.NamesDistinct) : read (ofJson v) = .ok v := by
  induction h with
  | null | bool | number | string => rfl
  | @array items _ ih =>
    have hitems : readItems (ofItems items) = .ok items := by
      rw [ofItems_eq_map, readItems_eq_mapM]
      exact mapM_map_eq_ok ih
    rw [ofJson, read, hitems]
    rfl
  | @object entries nodup _ ih =>
    have hentries : readMembers (ofEntries entries) = .ok entries := by
      rw [ofEntries_eq_map, readMembers_eq_mapM]
      refine mapM_map_eq_ok fun e he => ?_
      rw [ih e he]
      rfl
    rw [ofJson, read, hentries]
    exact congrArg (fun es => Except.ok (Json.object es)) (Entries.ofList_eq_self nodup)

theorem eq_null_of_read {d : Document} (h : read d = .ok .null) : d = .null := by
  cases d with
  | null => rfl
  | number n => cases n <;> cases h
  | string s => cases s <;> cases h
  | array => obtain ⟨-, values, -, hv⟩ := exists_of_read_array h; cases hv
  | object => obtain ⟨-, entries, -, hv⟩ := exists_of_read_object h; cases hv
  | bool | broken => cases h

mutual

/-- Of two values of one name only the last is read. -/
theorem namesDistinct_of_read : ∀ {d : Document} {v : Json}, read d = .ok v → v.NamesDistinct
  | null, _, h => by cases h; exact .null
  | bool b, _, h => by cases h; exact .bool b
  | number n, _, h => by
    cases n with
    | error f => cases h
    | ok n => cases h; exact .number n
  | string s, _, h => by
    cases s with
    | error f => cases h
    | ok s => cases h; exact .string s
  | array _ _ _, _, h => by
    obtain ⟨-, values, hvalues, rfl⟩ := exists_of_read_array h
    exact .array (namesDistinct_of_readItems hvalues)
  | object _ _ _, _, h => by
    obtain ⟨-, entries, hentries, rfl⟩ := exists_of_read_object h
    exact .object (Entries.nodup_names_ofList entries) fun e he =>
      namesDistinct_of_readMembers hentries e (Entries.mem_of_mem_ofList he)
  | broken _ _ _, _, h => by cases h

theorem namesDistinct_of_readItems : ∀ {items : List Document} {values : List Json},
    readItems items = .ok values → ∀ v ∈ values, v.NamesDistinct
  | [], _, h => by cases h; exact nofun
  | d :: rest, _, h => by
    obtain ⟨v, others, hv, hothers, rfl⟩ := exists_of_readItems_cons h
    exact List.forall_mem_cons.2 ⟨namesDistinct_of_read hv, namesDistinct_of_readItems hothers⟩

theorem namesDistinct_of_readMembers : ∀ {members : List (Document × Document)}
    {entries : List (String × Json)}, readMembers members = .ok entries →
      ∀ e ∈ entries, e.2.NamesDistinct
  | [], _, h => by cases h; exact nofun
  | (name, d) :: rest, _, h => by
    obtain ⟨n, v, others, -, hv, hothers, rfl⟩ := exists_of_readMembers_cons h
    exact List.forall_mem_cons.2 ⟨namesDistinct_of_read hv, namesDistinct_of_readMembers hothers⟩

end

end Document

/-! ## Trees -/

theorem Entries.names_map {α β : Type} (f : α → β) (entries : Entries α) :
    names (entries.map fun e => (e.1, f e.2)) = names entries := by
  rw [names, names, List.map_map]
  rfl

/-- Whether every leaf is read from what it is written as, which repeats no name. -/
structure LeafForm.Lawful {α : Type} (form : LeafForm α) : Prop where
  namesDistinct (value : α) : (form.toJson value).NamesDistinct
  ofDocument? (value : α) :
    Asked.ofDocument? form (Document.ofJson (form.toJson value)) = some (.leaf value)

theorem Selection.form_lawful : form.Lawful := ⟨.bool, fun _ => rfl⟩

theorem Sorting.form_lawful : form.Lawful := ⟨.string, fun _ => rfl⟩

namespace Asked

variable {α : Type} {form : LeafForm α} {a : Asked α} {tree : AskedTree α}

theorem entriesToJson_eq_map (form : LeafForm α) (tree : AskedTree α) :
    entriesToJson form tree = tree.map fun e => (e.1, toJson form e.2) := by
  induction tree with
  | nil => rfl
  | cons e rest ih => rw [entriesToJson, ih, List.map_cons]

/-- A tree that repeats no name is written as a value that repeats none. -/
theorem namesDistinct_object (hform : form.Lawful) (h : tree.NamesDistinct) :
    (Json.object (entriesToJson form tree)).NamesDistinct := by
  induction h with
  | @mk tree nodup _ ih =>
    rw [entriesToJson_eq_map]
    refine .object (by rwa [Entries.names_map]) fun e he => ?_
    obtain ⟨⟨name, a⟩, ha, rfl⟩ := List.mem_map.1 he
    cases a with
    | leaf value => exact hform.namesDistinct value
    | tree entries => exact ih ha

theorem ofMembers?_ofEntries
    (h : ∀ e ∈ tree, ofDocument? form (Document.ofJson (e.2.toJson form)) = some e.2) :
    ofMembers? form (Document.ofEntries (entriesToJson form tree)) = some tree := by
  induction tree with
  | nil => rfl
  | cons e rest ih =>
    obtain ⟨he, hrest⟩ := List.forall_mem_cons.1 h
    rw [entriesToJson, Document.ofEntries, ofMembers?, he, ih hrest]
    rfl

theorem ofDocument?_ofJson (hform : form.Lawful) (h : a.subtree.NamesDistinct) :
    ofDocument? form (Document.ofJson (a.toJson form)) = some a := by
  generalize hs : a.subtree = tree at h
  induction h generalizing a with
  | mk nodup _ ih =>
    cases a with
    | leaf value => exact hform.ofDocument? value
    | tree entries =>
      cases hs
      have hbelow : ofMembers? form (Document.ofEntries (entriesToJson form entries))
          = some entries := ofMembers?_ofEntries fun e he => ih he rfl
      rw [toJson, Document.ofJson, ofDocument?, hbelow, Option.map_some]
      exact congrArg (fun es => some (Asked.tree es)) (Entries.ofList_eq_self nodup)

theorem decode_ofJson (hform : form.Lawful) (h : a.subtree.NamesDistinct) :
    decode form (Document.ofJson (a.toJson form)) = .ok a := by
  have hjson : (a.toJson form).NamesDistinct := by
    cases a with
    | leaf value => exact hform.namesDistinct value
    | tree entries => exact namesDistinct_object hform h
  rw [decode, Document.read_ofJson hjson, ofDocument?_ofJson hform h]
  rfl

theorem decodeTree_ofJson (hform : form.Lawful) (h : tree.NamesDistinct) :
    decodeTree form (Document.ofJson (.object (entriesToJson form tree))) = .ok tree := by
  have hentries := Decode.entries_ofJson_map fun e he => decode_ofJson hform (h.subtree_of_mem he)
  rw [decodeTree, entriesToJson_eq_map, hentries]
  exact congrArg Except.ok (Entries.ofList_eq_self h.nodup)

end Asked

/-! ## Requests -/

namespace Request

/-- Whether no tree of the request and no object in its filter repeats a name, at any depth. -/
structure NamesDistinct (r : Request) : Prop where
  relations : r.relations.NamesDistinct
  select : r.select.NamesDistinct
  groups : r.groups.NamesDistinct
  orders : r.orders.NamesDistinct
  filter : ∀ v, r.filter = some v → v.NamesDistinct

/-! ### Written -/

def filterEntry (filter : Option Json) : List (String × Json) :=
  match filter with
  | some v => [("where", v)]
  | none => []

def members (r : Request) : List (String × Json) :=
  [("relations", .object (Asked.entriesToJson Selection.form r.relations)),
      ("select", .object (Asked.entriesToJson Selection.form r.select)),
      ("groups", .object (Asked.entriesToJson Selection.form r.groups)),
      ("orders", .object (Asked.entriesToJson Sorting.form r.orders))]
    ++ filterEntry r.filter
    ++ integerEntry "skip" r.skip
    ++ integerEntry "offset" r.offset
    ++ integerEntry "take" r.take
    ++ integerEntry "limit" r.limit
    ++ integerEntry "page" r.page

theorem toJson_eq (r : Request) : r.toJson = .object r.members := rfl

theorem name_of_mem_filterEntry {filter : Option Json} {e : String × Json}
    (h : e ∈ filterEntry filter) : e.1 = "where" := by
  cases filter with
  | none => cases h
  | some v => rw [List.mem_singleton.1 h]

theorem name_of_mem_integerEntry {name : String} {value : Option Int64} {e : String × Json}
    (h : e ∈ integerEntry name value) : e.1 = name := by
  cases value with
  | none => cases h
  | some n => rw [List.mem_singleton.1 h]

theorem name_mem_fields {r : Request} {e : String × Json} (h : e ∈ r.members) :
    e.1 ∈ shape.fields := by
  simp only [members, List.mem_append] at h
  rcases h with (((((h | h) | h) | h) | h) | h) | h
  · simp only [List.mem_cons, List.not_mem_nil, or_false] at h
    rcases h with rfl | rfl | rfl | rfl <;> simp [shape]
  · simp [shape, name_of_mem_filterEntry h]
  all_goals simp [shape, name_of_mem_integerEntry h]

theorem int64_ofJson (n : Int64) :
    Decode.int64 (Document.ofJson (.number (.int n.toInt))) = .ok n := by
  have hrange : (Int64.minValue.toInt ≤ n.toInt && n.toInt ≤ Int64.maxValue.toInt) = true := by
    rw [Bool.and_eq_true, decide_eq_true_eq, decide_eq_true_eq]
    exact ⟨n.minValue_le_toInt, n.toInt_le⟩
  change (if _ then Except.ok (Int64.ofInt n.toInt) else _) = _
  rw [if_pos hrange, Int64.ofInt_toInt]

theorem optional_ofJson {v : Json} (h : v.NamesDistinct) (hv : v ≠ .null) :
    Decode.optional (fun x => Decode.lift x.read) (Document.ofJson v) = .ok (some v) := by
  cases v with
  | null => exact (hv rfl).elim
  | _ =>
    change some <$> Decode.lift (Document.read _) = _
    rw [Document.read_ofJson h]
    rfl

def Draft.enter (draft : Draft) (e : String × Json) : Decode.Result Draft :=
  draft.put e.1 (Document.ofJson e.2)

section

variable {α : Type} {read : Document → Decode.Result α} {draft : Draft} {field : String}

/-- A field that is not there yet is set to what its value holds. -/
theorem Draft.enter_of_put (set : Option α → Draft)
    (hput : ∀ x, draft.put field x = do return set (← some <$> read x)) {v : Json} {a : α}
    (h : read (Document.ofJson v) = .ok a) : draft.enter (field, v) = .ok (set (some a)) := by
  rw [Draft.enter, hput, h]
  rfl

theorem Draft.enter_filterEntry (set : Option (Option Json) → Draft)
    (hput : ∀ x, draft.put "where" x
      = do return set (← some <$> Decode.optional (fun y => Decode.lift y.read) x))
    (hnone : set none = draft) {filter : Option Json}
    (h : ∀ v, filter = some v → v.NamesDistinct) (hfilter : filter ≠ some .null) :
    (filterEntry filter).foldlM Draft.enter draft = .ok (set (filter.map some)) := by
  cases filter with
  | none => exact congrArg Except.ok hnone.symm
  | some v =>
    have hread := optional_ofJson (h v rfl) fun hv => hfilter (congrArg some hv)
    rw [filterEntry, List.foldlM_cons, enter_of_put set hput hread]
    rfl

theorem Draft.enter_integerEntry (set : Option (Option Int64) → Draft)
    (hput : ∀ x, draft.put field x = do return set (← some <$> Decode.optional Decode.int64 x))
    (hnone : set none = draft) (value : Option Int64) :
    (integerEntry field value).foldlM Draft.enter draft = .ok (set (value.map some)) := by
  cases value with
  | none => exact congrArg Except.ok hnone.symm
  | some n =>
    have hread : Decode.optional Decode.int64 (Document.ofJson (.number (.int n.toInt)))
        = .ok (some n) := congrArg (some <$> ·) (int64_ofJson n)
    rw [integerEntry, List.foldlM_cons, enter_of_put set hput hread]
    rfl

end

theorem enter_members {r : Request} (h : r.NamesDistinct) (hfilter : r.filter ≠ some .null) :
    r.members.foldlM Draft.enter {} = .ok {
      relations := some r.relations
      select := some r.select
      groups := some r.groups
      orders := some r.orders
      filter := r.filter.map some
      skip := r.skip.map some
      offset := r.offset.map some
      take := r.take.map some
      limit := r.limit.map some
      page := r.page.map some } := by
  obtain ⟨relations, select, groups, orders, filter, skip, offset, take, limit, page⟩ := r
  -- Each entry sets the next field and leaves the ones before it.
  let d₁ : Draft := { relations := some relations }
  let d₂ : Draft := { d₁ with select := some select }
  let d₃ : Draft := { d₂ with groups := some groups }
  let d₄ : Draft := { d₃ with orders := some orders }
  let d₅ : Draft := { d₄ with filter := filter.map some }
  let d₆ : Draft := { d₅ with skip := skip.map some }
  let d₇ : Draft := { d₆ with offset := offset.map some }
  let d₈ : Draft := { d₇ with take := take.map some }
  let d₉ : Draft := { d₈ with limit := limit.map some }
  have h₁ : Draft.enter {} ("relations", .object (Asked.entriesToJson Selection.form relations))
      = .ok d₁ :=
    Draft.enter_of_put (fun v => { relations := v }) (fun _ => rfl)
      (Asked.decodeTree_ofJson Selection.form_lawful h.relations)
  have h₂ : d₁.enter ("select", .object (Asked.entriesToJson Selection.form select)) = .ok d₂ :=
    Draft.enter_of_put (fun v => { d₁ with select := v }) (fun _ => rfl)
      (Asked.decodeTree_ofJson Selection.form_lawful h.select)
  have h₃ : d₂.enter ("groups", .object (Asked.entriesToJson Selection.form groups)) = .ok d₃ :=
    Draft.enter_of_put (fun v => { d₂ with groups := v }) (fun _ => rfl)
      (Asked.decodeTree_ofJson Selection.form_lawful h.groups)
  have h₄ : d₃.enter ("orders", .object (Asked.entriesToJson Sorting.form orders)) = .ok d₄ :=
    Draft.enter_of_put (fun v => { d₃ with orders := v }) (fun _ => rfl)
      (Asked.decodeTree_ofJson Sorting.form_lawful h.orders)
  have h₅ : (filterEntry filter).foldlM Draft.enter d₄ = .ok d₅ :=
    Draft.enter_filterEntry (fun v => { d₄ with filter := v }) (fun _ => rfl) rfl h.filter hfilter
  have h₆ : (integerEntry "skip" skip).foldlM Draft.enter d₅ = .ok d₆ :=
    Draft.enter_integerEntry (fun v => { d₅ with skip := v }) (fun _ => rfl) rfl skip
  have h₇ : (integerEntry "offset" offset).foldlM Draft.enter d₆ = .ok d₇ :=
    Draft.enter_integerEntry (fun v => { d₆ with offset := v }) (fun _ => rfl) rfl offset
  have h₈ : (integerEntry "take" take).foldlM Draft.enter d₇ = .ok d₈ :=
    Draft.enter_integerEntry (fun v => { d₇ with take := v }) (fun _ => rfl) rfl take
  have h₉ : (integerEntry "limit" limit).foldlM Draft.enter d₈ = .ok d₉ :=
    Draft.enter_integerEntry (fun v => { d₈ with limit := v }) (fun _ => rfl) rfl limit
  rw [members, List.foldlM_append, List.foldlM_append, List.foldlM_append, List.foldlM_append,
    List.foldlM_append, List.foldlM_append]
  simp only [List.foldlM_cons, List.foldlM_nil, bind_assoc, pure_bind]
  rw [bind_of_ok h₁, bind_of_ok h₂, bind_of_ok h₃, bind_of_ok h₄, bind_of_ok h₅, bind_of_ok h₆,
    bind_of_ok h₇, bind_of_ok h₈, bind_of_ok h₉]
  exact Draft.enter_integerEntry (fun v => { d₉ with page := v }) (fun _ => rfl) rfl page

theorem decode_ofJson {r : Request} (h : r.NamesDistinct) (hfilter : r.filter ≠ some .null) :
    decode .value (Document.ofJson r.toJson) = .ok r := by
  have hjoin {α : Type} (o : Option α) : (o.map some).join = o := by
    cases o <;> rfl
  rw [decode, toJson_eq, Decode.record_ofJson fun e he => name_mem_fields he]
  change Draft.finish <$> r.members.foldlM Draft.enter {} = _
  rw [enter_members h hfilter]
  change Except.ok (Draft.finish _) = _
  simp only [Draft.finish, hjoin, Option.getD_some]

/-! ### Read -/

theorem of_optional {x : Document} {v : Json}
    (h : Decode.optional (fun y => Decode.lift y.read) x = .ok (some v)) :
    v.NamesDistinct ∧ v ≠ .null := by
  rcases Decode.of_optional h with ⟨-, hv⟩ | ⟨hx, w, hw, hv⟩
  · cases hv
  · cases hv
    have hread := Decode.of_lift hw
    refine ⟨Document.namesDistinct_of_read hread, fun hnull => hx ?_⟩
    exact Document.eq_null_of_read (hnull ▸ hread)

/-- Every field that is read repeats no name, and a null is not read as a filter. -/
theorem finish_put {draft draft' : Draft} {field : String} {x : Document}
    (h : draft.put field x = .ok draft')
    (hd : draft.finish.NamesDistinct ∧ draft.finish.filter ≠ some .null) :
    draft'.finish.NamesDistinct ∧ draft'.finish.filter ≠ some .null := by
  obtain ⟨hnames, hfilter⟩ := hd
  unfold Draft.put at h
  split at h
  case h_11 => cases h; exact ⟨hnames, hfilter⟩
  all_goals
    obtain ⟨after, hafter, h⟩ := exists_of_bind_eq_ok h
    obtain ⟨-, a, ha, rfl⟩ := Decode.of_once hafter
    cases h
  case h_1 => exact ⟨{ hnames with relations := Asked.namesDistinct_of_decodeTree ha }, hfilter⟩
  case h_2 => exact ⟨{ hnames with select := Asked.namesDistinct_of_decodeTree ha }, hfilter⟩
  case h_3 => exact ⟨{ hnames with groups := Asked.namesDistinct_of_decodeTree ha }, hfilter⟩
  case h_4 => exact ⟨{ hnames with orders := Asked.namesDistinct_of_decodeTree ha }, hfilter⟩
  case h_5 =>
    exact ⟨{ hnames with filter := fun v hv => (of_optional (ha.trans (congrArg Except.ok hv))).1 },
      fun hv => (of_optional (ha.trans (congrArg Except.ok hv))).2 rfl⟩
  all_goals exact ⟨{ hnames with }, hfilter⟩

theorem namesDistinct_of_decode {source : Source} {d : Document} {r : Request}
    (h : decode source d = .ok r) : r.NamesDistinct ∧ r.filter ≠ some .null := by
  obtain ⟨draft, hrecord, rfl⟩ := Decode.exists_of_map_eq_ok h
  have hstart : ({} : Draft).finish.NamesDistinct ∧ ({} : Draft).finish.filter ≠ some .null :=
    ⟨⟨.nil, .nil, .nil, .nil, nofun⟩, nofun⟩
  exact Decode.of_record
    (motive := fun draft : Draft => draft.finish.NamesDistinct ∧ draft.finish.filter ≠ some .null)
    hstart finish_put hrecord

/-- What a request is written as is read as that request, with everything in its order, exactly
where no name is repeated and the filter is not null. Every request that is read is such a one. -/
theorem ofJson_toJson :
    (∀ r : Request, ofJson r.toJson = .ok r ↔ r.NamesDistinct ∧ r.filter ≠ some .null)
    ∧ ∀ r : Request, ((∃ v, ofJson v = .ok r) ∨ ∃ s, ofText s = .ok r) →
      ofJson r.toJson = .ok r := by
  refine ⟨fun r => ⟨namesDistinct_of_decode, fun h => decode_ofJson h.1 h.2⟩, ?_⟩
  rintro r (⟨v, h⟩ | ⟨s, h⟩)
  · obtain ⟨hnames, hfilter⟩ := namesDistinct_of_decode h
    exact decode_ofJson hnames hfilter
  · obtain ⟨hnames, hfilter⟩ := namesDistinct_of_decode (Decode.of_ofText h)
    exact decode_ofJson hnames hfilter

/-- The fields were read in another order, and one name of the filter came twice. -/
theorem ofJson_toJson_role :
    let v := Json.object [("page", .number (.int 3)), ("take", .null),
      ("where", .object [("b", .null), ("a", .bool true), ("b", .array [.string "$Max(1)"])]),
      ("orders", .object [("role", .object [("name", .string "ASC")]), ("id", .string "down")]),
      ("relations", .object [("role", .object [("access", .bool false)]), ("a", .object [])])]
    let r : Request := {
      relations := [("role", .tree [("access", .leaf false)]), ("a", .tree [])]
      orders := [("role", .tree [("name", .leaf "ASC")]), ("id", .leaf "down")]
      filter := some (.object [("b", .array [.string "$Max(1)"]), ("a", .bool true)])
      page := some 3 }
    ofJson v = .ok r ∧ r.NamesDistinct ∧ ofJson r.toJson = .ok r
      ∧ ofJson { r with filter := some .null }.toJson ≠ .ok { r with filter := some .null } := by
  intro v r
  obtain ⟨hround, hread⟩ := ofJson_toJson
  have hv : ofJson v = .ok r := by cbv
  have heq := hread r (.inl ⟨v, hv⟩)
  exact ⟨hv, ((hround r).1 heq).1, heq, fun h => ((hround _).1 h).2 rfl⟩

end Request

end QuerySql
