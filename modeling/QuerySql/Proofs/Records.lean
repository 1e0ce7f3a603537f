import Mathlib.Data.List.Zip
import QuerySql.Json.Decoder

/-!
# Records part by part

A decoder hands on the parts of a document with the fact that they are smaller. Where a decoder of
parts makes no use of that fact, decoding is a plain run over the parts: over the values of a list,
the members of an object and the fields of a record (`Decode.items_array`, `Decode.entries_object`,
`Decode.record_object`, `Decode.record_array`). However a record is written its fields have names
(`Decode.fieldsOf`, `Decode.run_of_record`), and a run that refuses a field twice leaves what the
field holds (`Decode.field_of_run`).
-/

namespace QuerySql

namespace Document

theorem ofItems_eq_map (items : List Json) : ofItems items = items.map ofJson := by
  induction items with
  | nil => rfl
  | cons v rest ih => rw [ofItems, ih, List.map_cons]

theorem ofEntries_eq_map (entries : List (String × Json)) :
    ofEntries entries = entries.map fun e => (string (.ok e.1), ofJson e.2) := by
  induction entries with
  | nil => rfl
  | cons e rest ih => rw [ofEntries, ih, List.map_cons]

end Document

namespace Decode

variable {α β δ : Type} {source : Source} {shape : Shape}

/-! ## Runs over the parts -/

theorem mapM_attach (xs : List β) (f : β → Result α) :
    (xs.attach.mapM fun x => f x.1) = xs.mapM f := by
  simp only [List.mapM_subtype, List.unattach_attach]

theorem foldlM_attach (xs : List β) (f : δ → β → Result δ) (start : δ) :
    xs.attach.foldlM (fun state x => f state x.1) start = xs.foldlM f start := by
  simp only [List.foldlM_subtype, List.unattach_attach]

theorem items_array (decode : Document → Result α) (deep : Bool) (xs : List Document)
    (ending : Option Break) :
    items (.array deep xs ending) (fun x _ => decode x) = do
      lift (Document.checkDepth deep)
      let values ← xs.mapM decode
      lift (Document.ended Break.inList ending)
      return values := by
  rw [← mapM_attach]
  rfl

def member (decode : Document → Result α) (m : Document × Document) : Result (String × α) := do
  let name ← lift (Document.memberName m.1)
  let value ← decode m.2
  return (name, value)

theorem entries_object (decode : Document → Result α) (deep : Bool)
    (ms : List (Document × Document)) (ending : Option Break) :
    entries (.object deep ms ending) (fun x _ => decode x) = do
      lift (Document.checkDepth deep)
      let values ← ms.mapM (member decode)
      lift (Document.ended Break.inObject ending)
      return values := by
  rw [← mapM_attach]
  rfl

def afterMember (shape : Shape) (step : δ → String → Document → Result δ) (state : δ)
    (m : Document × Document) : Result δ := do
  let name ← lift (Document.memberName m.1)
  if name ∈ shape.fields then step state name m.2
  else do
    lift (Document.pass m.2)
    return state

theorem record_object (step : δ → String → Document → Result δ) (start : δ) (deep : Bool)
    (ms : List (Document × Document)) (ending : Option Break) :
    record source shape start (.object deep ms ending) (fun state name x _ => step state name x)
      = do
        lift (Document.checkDepth deep)
        let state ← ms.foldlM (afterMember shape step) start
        lift (Document.ended Break.inObject ending)
        return state := by
  rw [← foldlM_attach]
  rfl

theorem record_array (step : δ → String → Document → Result δ) (start : δ) (deep : Bool)
    (xs : List Document) (ending : Option Break) :
    record source shape start (.array deep xs ending) (fun state name x _ => step state name x)
      = do
        lift (Document.checkDepth deep)
        let state ← (shape.fields.zip xs).foldlM (fun state p => step state p.1 p.2) start
        checkItems source shape xs.length ending
        return state := by
  conv_rhs =>
    enter [2, u, 1]
    rw [← List.zip_swap, List.foldlM_map, ← List.attach_map_subtype_val xs, List.zip_map_left,
      List.foldlM_map]
  rfl

/-! ## Values without faults -/

theorem between_ok (run : Result α) (fault : Break → TextFault) :
    (do
      lift (Document.checkDepth false)
      let a ← run
      lift (Document.ended fault none)
      return a) = run :=
  bind_pure run

theorem items_ofJson (decode : Document → Result α) (values : List Json) :
    items (Document.ofJson (.array values)) (fun x _ => decode x)
      = values.mapM fun v => decode (Document.ofJson v) := by
  rw [Document.ofJson, Document.ofItems_eq_map, items_array, between_ok, List.mapM_map]
  rfl

theorem entries_ofJson (decode : Document → Result α) (values : List (String × Json)) :
    entries (Document.ofJson (.object values)) (fun x _ => decode x)
      = values.mapM fun e => do return (e.1, ← decode (Document.ofJson e.2)) := by
  rw [Document.ofJson, Document.ofEntries_eq_map, entries_object, between_ok, List.mapM_map]
  rfl

theorem entries_ofJson_map {decode : Document → Result α} {write : α → Json}
    {values : List (String × α)}
    (h : ∀ e ∈ values, decode (Document.ofJson (write e.2)) = .ok e.2) :
    entries (Document.ofJson (.object (values.map fun e => (e.1, write e.2))))
      (fun x _ => decode x) = .ok values := by
  rw [entries_ofJson]
  refine mapM_map_eq_ok fun e he => ?_
  rw [h e he]
  rfl

theorem record_ofJson {step : δ → String → Document → Result δ} {entries : List (String × Json)}
    (h : ∀ e ∈ entries, e.1 ∈ shape.fields) (start : δ) :
    record source shape start (Document.ofJson (.object entries))
        (fun state name x _ => step state name x)
      = entries.foldlM (fun state e => step state e.1 (Document.ofJson e.2)) start := by
  rw [Document.ofJson, Document.ofEntries_eq_map, record_object, between_ok, List.foldlM_map]
  induction entries generalizing start with
  | nil => rfl
  | cons e rest ih =>
    rw [List.foldlM_cons, List.foldlM_cons]
    have he : afterMember shape step start (.string (.ok e.1), Document.ofJson e.2)
        = step start e.1 (Document.ofJson e.2) := if_pos (h e List.mem_cons_self)
    rw [he]
    exact bind_congr (ih fun d hd => h d (List.mem_cons_of_mem e hd))

/-! ## Any document -/

theorem of_lift {r : Except TextFault α} {a : α} (h : lift r = .ok a) : r = .ok a := by
  cases r with
  | error fault => cases h
  | ok b => cases h; rfl

theorem eq_ok_of_between {before after : Result Unit} {run : Result α} {a : α}
    (h : (do before; let a ← run; after; return a) = .ok a) : run = .ok a := by
  obtain ⟨-, -, h⟩ := exists_of_bind_eq_ok h
  obtain ⟨b, hrun, h⟩ := exists_of_bind_eq_ok h
  obtain ⟨-, -, h⟩ := exists_of_bind_eq_ok h
  exact hrun.trans h

/-- The members of an object, with what is decoded from them. -/
def membersOf (decode : Document → Result α) : Document → List (String × α)
  | .object _ ms _ => ms.filterMap fun m => (member decode m).toOption
  | _ => []

theorem exists_of_mem_membersOf {d : Document} {decode : Document → Result α} {e : String × α}
    (h : e ∈ membersOf decode d) : ∃ x, decode x = .ok e.2 := by
  cases d with
  | object deep ms ending =>
    obtain ⟨m, -, hm⟩ := List.mem_filterMap.1 h
    cases hread : member decode m with
    | error fault => rw [hread] at hm; cases hm
    | ok read =>
      rw [hread] at hm
      cases hm
      obtain ⟨name, -, hread⟩ := exists_of_bind_eq_ok hread
      obtain ⟨value, hvalue, hread⟩ := exists_of_bind_eq_ok hread
      cases hread
      exact ⟨m.2, hvalue⟩
  | _ => cases h

theorem entries_eq_membersOf {d : Document} {decode : Document → Result α}
    {values : List (String × α)} (h : entries d (fun x _ => decode x) = .ok values) :
    values = membersOf decode d := by
  cases d with
  | object deep ms ending =>
    rw [entries_object] at h
    have hread := eq_ok_of_between h
    clear h
    rw [membersOf]
    induction ms generalizing values with
    | nil => cases hread; rfl
    | cons m rest ih =>
      rw [List.mapM_cons] at hread
      obtain ⟨e, he, hread⟩ := exists_of_bind_eq_ok hread
      obtain ⟨es, hes, hread⟩ := exists_of_bind_eq_ok hread
      cases hread
      rw [List.filterMap_cons_some (by rw [he]; rfl), ih hes]
  | _ =>
    obtain ⟨f, -, h⟩ := exists_of_bind_eq_ok h
    cases h

/-- The fields of a record by name: the members of an object that are fields, or the items of a
list as far as there are fields. -/
def fieldsOf (shape : Shape) : Document → List (String × Document)
  | .object _ ms _ => ms.filterMap fun m =>
    (Document.memberName m.1).toOption.bind fun name =>
      if name ∈ shape.fields then some (name, m.2) else none
  | .array _ xs _ => shape.fields.zip xs
  | _ => []

theorem run_of_record {d : Document} {step : δ → String → Document → Result δ} {start state : δ}
    (h : record source shape start d (fun state name x _ => step state name x) = .ok state) :
    (fieldsOf shape d).foldlM (fun state p => step state p.1 p.2) start = .ok state := by
  cases d with
  | object deep ms ending =>
    rw [record_object] at h
    have hrun := eq_ok_of_between h
    clear h
    rw [fieldsOf]
    induction ms generalizing start with
    | nil => exact hrun
    | cons m rest ih =>
      rw [List.foldlM_cons] at hrun
      obtain ⟨next, hnext, hrun⟩ := exists_of_bind_eq_ok hrun
      obtain ⟨name, hname, hnext⟩ := exists_of_bind_eq_ok hnext
      have hname : Document.memberName m.1 = .ok name := of_lift hname
      by_cases hfield : name ∈ shape.fields
      · rw [if_pos hfield] at hnext
        rw [List.filterMap_cons_some (by rw [hname]; exact if_pos hfield), List.foldlM_cons, hnext]
        exact ih hrun
      · rw [if_neg hfield] at hnext
        obtain ⟨-, -, hnext⟩ := exists_of_bind_eq_ok hnext
        cases hnext
        rw [List.filterMap_cons_none (by rw [hname]; exact if_neg hfield)]
        exact ih hrun
  | array deep xs ending =>
    rw [record_array] at h
    exact eq_ok_of_between h
  | _ =>
    obtain ⟨f, -, h⟩ := exists_of_bind_eq_ok h
    cases h

theorem of_optional {decode : Document → Result α} {x : Document} {value : Option α}
    (h : optional decode x = .ok value) :
    x = .null ∧ value = none ∨ x ≠ .null ∧ ∃ a, decode x = .ok a ∧ value = some a := by
  unfold optional at h
  split at h
  · cases h
    exact .inl ⟨rfl, rfl⟩
  · rename_i hx
    obtain ⟨a, ha, rfl⟩ := exists_of_map_eq_ok h
    exact .inr ⟨hx, a, ha, rfl⟩

/-- What holds at the start of a record and is kept by every field holds behind it. -/
theorem of_record {motive : δ → Prop} {d : Document} {step : δ → String → Document → Result δ}
    {start state : δ} (hstart : motive start)
    (hstep : ∀ {s t name x}, step s name x = .ok t → motive s → motive t)
    (h : record source shape start d (fun state name x _ => step state name x) = .ok state) :
    motive state := by
  have hrun := run_of_record h
  clear h
  generalize fieldsOf shape d = parts at hrun
  induction parts generalizing start with
  | nil => cases hrun; exact hstart
  | cons p rest ih =>
    rw [List.foldlM_cons] at hrun
    obtain ⟨t, ht, hrun⟩ := exists_of_bind_eq_ok hrun
    exact ih (hstep ht hstart) hrun

theorem of_ofText {decode : Document → Result α} {s : String} {a : α}
    (h : ofText decode s = .ok a) : decode (Document.scan 0 s.toList).piece = .ok a := by
  obtain ⟨b, hb, h⟩ := exists_of_bind_eq_ok h
  obtain ⟨-, -, h⟩ := exists_of_bind_eq_ok h
  cases h
  exact hb

theorem of_once {name : String} {before after : Option α} {value : Result α}
    (h : once name before value = .ok after) :
    before = none ∧ ∃ a, value = .ok a ∧ after = some a := by
  unfold once at h
  split at h
  · cases h
  · rename_i hbefore
    obtain ⟨a, ha, rfl⟩ := exists_of_map_eq_ok h
    exact ⟨Option.not_isSome_iff_eq_none.1 hbefore, a, ha, rfl⟩

/-- Where each step either sets a field that was not there or leaves it alone, a run sets it to
what its part holds, if there is one. -/
theorem field_of_run {step : δ → String → Document → Result δ} (get : δ → Option α)
    {read : Document → Result α} (field : String) {parts : List (String × Document)}
    {start state : δ}
    (set : ∀ {s t x}, step s field x = .ok t →
      get s = none ∧ ∃ a, read x = .ok a ∧ get t = some a)
    (keep : ∀ {s t name x}, name ≠ field → step s name x = .ok t → get t = get s)
    (hstart : get start = none)
    (hrun : parts.foldlM (fun s p => step s p.1 p.2) start = .ok state) :
    Entries.get? field parts = none ∧ get state = none
      ∨ ∃ x a, Entries.get? field parts = some x ∧ read x = .ok a ∧ get state = some a := by
  -- Once the field is there no other part has its name.
  have hkept {parts : List (String × Document)} {s : δ} {a : α} (hs : get s = some a)
      (hrun : parts.foldlM (fun s p => step s p.1 p.2) s = .ok state) : get state = some a := by
    induction parts generalizing s with
    | nil => cases hrun; exact hs
    | cons p rest ih =>
      rw [List.foldlM_cons] at hrun
      obtain ⟨t, ht, hrun⟩ := exists_of_bind_eq_ok hrun
      refine ih ?_ hrun
      by_cases hp : p.1 = field
      · rw [hp] at ht
        rw [(set ht).1] at hs
        cases hs
      · exact (keep hp ht).trans hs
  induction parts generalizing start with
  | nil => cases hrun; exact .inl ⟨rfl, hstart⟩
  | cons p rest ih =>
    obtain ⟨name, x⟩ := p
    rw [List.foldlM_cons] at hrun
    obtain ⟨t, ht, hrun⟩ := exists_of_bind_eq_ok hrun
    by_cases hp : name = field
    · subst hp
      obtain ⟨-, a, hread, hget⟩ := set ht
      exact .inr ⟨x, a, if_pos rfl, hread, hkept hget hrun⟩
    · rw [Entries.get?, if_neg hp]
      exact ih ((keep hp ht).trans hstart) hrun

end Decode

end QuerySql
