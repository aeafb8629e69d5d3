import Mathlib.Data.List.Induction
import SearchSync.Config.Json
import SearchSync.Json.Basic
import SearchSync.Proofs.Entity.Encoding
import SearchSync.Proofs.EventLog.Usable

/-!
# Records read from JSON

The fields of a record are stored in a draft one after the other, and each only sets its own. So a
default may be left out, and a field counts only for what is stored from it. Event models are read
back from their JSON form, and from it with a default left out.
-/

namespace SearchSync.Json

section Lists

variable {α : Type} {decode : Json → Decoded α}

theorem asList_map {encode : α → Json} {as : List α} (h : ∀ a ∈ as, decode (encode a) = .ok a) :
    (Json.array (as.map encode)).asList decode = .ok as := by
  rw [asList, mapM_ok_iff, List.forall₂_map_left_iff, List.forall₂_same]
  exact h

theorem asList_ofStrings (texts : List String) :
    (ofStrings texts).asList Json.asString = .ok texts :=
  asList_map fun _ _ => rfl

inductive ItemRelated (R : Json → Json → Prop) : Json → Json → Prop
  | item {before after : List Json} {j full : Json} (related : R j full) :
      ItemRelated R (.array (before ++ j :: after)) (.array (before ++ full :: after))

theorem ItemRelated.asList_eq {R : Json → Json → Prop} {j full : Json} (h : ItemRelated R j full)
    (hdecode : ∀ {j full}, R j full → decode full = decode j) :
    full.asList decode = j.asList decode := by
  obtain ⟨related⟩ := h
  simp only [asList, List.mapM_append, List.mapM_cons, hdecode related]

end Lists

theorem map_eq_ok {α β ε : Type} {x : Except ε α} {f : α → β} {b : β}
    (h : x.map f = .ok b) : ∃ a, b = f a := by
  cases x with
  | error e => cases h
  | ok a =>
    cases h
    exact ⟨a, rfl⟩

namespace Shape

variable {δ : Type} {s : Shape} {store : String → Json → δ → Decoded δ} {draft : δ}
  {field : String} {value j full : Json}

theorem read_object (members : List (String × Json)) : s.read store draft (.object members) =
    ((members.filter fun m => s.fields.contains m.1).foldlM (fun d m => store m.1 m.2 d) draft).map
      fun d => (d, false) := by
  rw [read]
  cases (members.filter _).foldlM (fun d m => store m.1 m.2 d) draft <;> rfl

/-- `full` is `j` with a value written out for a field that `j` leaves out. Fields by position can
only be left out from the end. -/
inductive Completes (s : Shape) (field : String) (value : Json) : Json → Json → Prop
  | member {before after : List (String × Json)} (absent : ∀ m ∈ before ++ after, m.1 ≠ field) :
      Completes s field value (.object (before ++ after))
        (.object (before ++ (field, value) :: after))
  | position {items : List Json} (next : items.length = s.fields.idxOf field) :
      Completes s field value (.array items) (.array (items ++ [value]))

/-- A draft starts with no field set, and storing a field sets no other. -/
structure Fieldwise (s : Shape) (store : String → Json → δ → Decoded δ) (draft : δ)
    (Unset : String → δ → Prop) : Prop where
  start : ∀ field ∈ s.fields, Unset field draft
  keeps : ∀ name ∈ s.fields, ∀ field ∈ s.fields, name ≠ field → ∀ j d d', Unset field d →
    store name j d = .ok d' → Unset field d'

theorem foldlM_idle {α ε : Type} {f : δ → α → Except ε δ} {Unset : δ → Prop} {a : α} {d : δ}
    {before after : List α} (hd : Unset d)
    (hkeeps : ∀ b ∈ before, ∀ d d', Unset d → f d b = .ok d' → Unset d')
    (hidle : ∀ d, Unset d → f d a = .ok d) :
    (before ++ a :: after).foldlM f d = (before ++ after).foldlM f d := by
  induction before generalizing d with
  | nil =>
    rw [List.nil_append, List.foldlM_cons, hidle d hd]
    rfl
  | cons b before ih =>
    obtain ⟨hb, hkeeps⟩ := List.forall_mem_cons.mp hkeeps
    rw [List.cons_append, List.cons_append, List.foldlM_cons, List.foldlM_cons]
    cases hstep : f d b with
    | error e => rfl
    | ok d' => exact ih (hb d d' hd hstep) hkeeps

theorem zip_fields {before : List Json} (hknown : field ∈ s.fields)
    (hplace : before.length = s.fields.idxOf field) :
    ∃ (filled : List (String × Json)) (rest : List String),
      (∀ m ∈ filled, m.1 ∈ s.fields ∧ m.1 ≠ field) ∧ s.fields.zip before = filled ∧
        ∀ j after,
          s.fields.zip (before ++ j :: after) = filled ++ (field, j) :: rest.zip after := by
  obtain ⟨names, rest, hfields, hnew⟩ := List.eq_append_cons_of_mem hknown
  have hlength : names.length = before.length := by
    rw [hplace, hfields, List.idxOf_append_of_notMem hnew, List.idxOf_cons_self, Nat.add_zero]
  refine ⟨names.zip before, rest, ?_, ?_, ?_⟩
  · intro m hm
    have hname := (List.of_mem_zip hm).1
    refine ⟨by rw [hfields]; exact List.mem_append_left _ hname, ?_⟩
    intro heq
    exact hnew (heq ▸ hname)
  · have hzip : (names ++ field :: rest).zip (before ++ []) = _ := List.zip_append hlength
    rwa [List.append_nil, List.zip_nil_right, List.append_nil, ← hfields] at hzip
  · intro j after
    rw [hfields, List.zip_append hlength, List.zip_cons_cons]

theorem Completes.read_eq {Unset : String → δ → Prop} (h : s.Completes field value j full)
    (hfields : s.Fieldwise store draft Unset) (hknown : field ∈ s.fields)
    (hdefault : ∀ d, Unset field d → store field value d = .ok d) :
    s.read store draft full = s.read store draft j := by
  have hstart := hfields.start field hknown
  cases h with
  | @member before after absent =>
    rw [read_object, read_object]
    refine congrArg (Except.map _) ?_
    have hcontains : s.fields.contains field = true := List.contains_iff_mem.mpr hknown
    simp only [List.filter_append, List.filter_cons, hcontains, if_true]
    refine foldlM_idle hstart ?_ hdefault
    intro m hm
    obtain ⟨hm, hfield⟩ := List.mem_filter.mp hm
    exact hfields.keeps m.1 (List.contains_iff_mem.mp hfield) field hknown
      (absent m (List.mem_append_left _ hm)) m.2
  | @position items next =>
    obtain ⟨filled, rest, hfilled, hzip, hfull⟩ := zip_fields hknown next
    have hlength := List.idxOf_lt_length_of_mem hknown
    have hfold : (filled ++ [(field, value)]).foldlM (fun d m => store m.1 m.2 d) draft =
        (filled ++ []).foldlM (fun d (m : String × Json) => store m.1 m.2 d) draft := by
      refine foldlM_idle (a := (field, value)) hstart ?_ hdefault
      intro m hm
      exact hfields.keeps m.1 (hfilled m hm).1 field hknown (hfilled m hm).2 m.2
    rw [List.append_nil] at hfold
    have hshort : ¬ s.fields.length < items.length := by omega
    have hshort' : ¬ s.fields.length < (items ++ [value]).length := by
      rw [List.length_append, List.length_singleton]
      omega
    simp only [read, hfull, hfold, hzip, hshort, hshort', List.zip_nil_right, if_false]

inductive FieldRelated (s : Shape) (field : String) (R : Json → Json → Prop) : Json → Json → Prop
  | member {before after : List (String × Json)} {j full : Json} (related : R j full) :
      FieldRelated s field R (.object (before ++ (field, j) :: after))
        (.object (before ++ (field, full) :: after))
  | position {before after : List Json} {j full : Json}
      (place : before.length = s.fields.idxOf field) (related : R j full) :
      FieldRelated s field R (.array (before ++ j :: after)) (.array (before ++ full :: after))

theorem FieldRelated.read_eq {R : Json → Json → Prop} (h : s.FieldRelated field R j full)
    (hknown : field ∈ s.fields)
    (hstore : ∀ {j full}, R j full → ∀ d, store field full d = store field j d) :
    s.read store draft full = s.read store draft j := by
  cases h with
  | @member before after j full related =>
    have hfield : s.fields.contains field = true := List.contains_iff_mem.mpr hknown
    rw [read_object, read_object]
    simp only [List.filter_append, List.filter_cons, hfield, if_true, List.foldlM_append,
      List.foldlM_cons, hstore related]
  | @position before after j full place related =>
    obtain ⟨filled, rest, _, _, hfull⟩ := zip_fields hknown place
    simp only [read, hfull, List.length_append, List.length_cons, List.foldlM_append,
      List.foldlM_cons, hstore related]

end Shape

end SearchSync.Json

namespace SearchSync

open Json (Decoded Shape map_eq_ok)

section Entries

variable {α : Type} {name : String} {value : α} {entries : List (String × α)}

theorem insertEntry_last (h : ∀ e ∈ entries, e.1 < name) :
    insertEntry name value entries = entries ++ [(name, value)] := by
  induction entries with
  | nil => rfl
  | cons e entries ih =>
    obtain ⟨he, hentries⟩ := List.forall_mem_cons.mp h
    have hne : name ≠ e.1 := fun heq => String.lt_irrefl e.1 (heq ▸ he)
    rw [insertEntry, if_neg (String.lt_asymm he), if_neg hne, ih hentries, List.cons_append]

theorem foldl_insertEntry (h : Ascending entries) :
    entries.foldl (fun acc e => insertEntry e.1 e.2 acc) [] = entries := by
  induction entries using List.reverseRecOn with
  | nil => rfl
  | append_singleton entries e ih =>
    obtain ⟨hentries, -, hlast⟩ := List.pairwise_append.mp h
    rw [List.foldl_append, ih hentries, List.foldl_cons, List.foldl_nil]
    exact insertEntry_last fun b hb => hlast b hb e (List.mem_singleton_self e)

theorem NameMap.entries_ofList (entries : List (String × α)) :
    (NameMap.ofList entries).entries =
      entries.foldl (fun acc e => insertEntry e.1 e.2 acc) [] := by
  induction entries using List.reverseRecOn with
  | nil => rfl
  | append_singleton entries e ih =>
    rw [ofList, List.foldl_append, List.foldl_append, List.foldl_cons, List.foldl_nil,
      List.foldl_cons, List.foldl_nil, ← ih]
    rfl

theorem NameMap.ofList_entries (m : NameMap α) : NameMap.ofList m.entries = m := by
  obtain ⟨entries, hascending⟩ := m
  have hentries := (NameMap.entries_ofList entries).trans (foldl_insertEntry hascending)
  cases hmap : NameMap.ofList entries with
  | mk entries' hascending' =>
    rw [hmap] at hentries
    subst hentries
    rfl

end Entries

namespace IdMapping

theorem columnTypesOfJson_object (types : NameMap ColumnType) :
    columnTypesOfJson (.object (types.entries.map fun e => (e.1, .string e.2.name))) =
      .ok types := by
  have hentries : (types.entries.map fun e => (e.1, Json.string e.2.name)).mapM
      (fun m => do return (m.1, ← ColumnType.ofJson m.2)) =
        (.ok types.entries : Decoded (List (String × ColumnType))) := by
    rw [mapM_ok_iff, List.forall₂_map_left_iff, List.forall₂_same]
    intro e _
    rw [ColumnType.ofJson_name]
    rfl
  rw [columnTypesOfJson, Json.asMembers]
  simp only [bind, Except.bind] at hentries ⊢
  rw [hentries]
  exact congrArg Except.ok types.ofList_entries

theorem toJson_eq (m : IdMapping) : m.toJson = .object [
    ("column_types", .object (m.columnTypes.entries.map fun e => (e.1, .string e.2.name))),
    ("columns_in_original", Json.ofStrings m.tableColumns),
    ("entity_type", .string m.entityType.name), ("id_columns", Json.ofStrings m.logColumns)] := by
  have hcolumns : ¬"id_columns" < "entity_type" := by decide
  have horiginal : "columns_in_original" < "entity_type" := by decide
  have horiginal' : "columns_in_original" < "id_columns" := by decide
  have htypes : "column_types" < "columns_in_original" := by decide
  simp [toJson, Json.ofMembers, insertEntry, hcolumns, horiginal, htypes]

theorem ofJson_toJson (m : IdMapping) : ofJson m.toJson = .ok m := by
  have htypes (d : Draft) : Draft.store "column_types"
      (.object (m.columnTypes.entries.map fun e => (e.1, .string e.2.name))) d =
        .ok { d with columnTypes := some m.columnTypes } :=
    congrArg (Except.map _) (columnTypesOfJson_object m.columnTypes)
  have horiginal (d : Draft) : Draft.store "columns_in_original" (Json.ofStrings m.tableColumns) d =
      .ok { d with tableColumns := some m.tableColumns } :=
    congrArg (Except.map _) (Json.asList_ofStrings m.tableColumns)
  have htype (d : Draft) : Draft.store "entity_type" (.string m.entityType.name) d =
      .ok { d with entityType := some m.entityType } := rfl
  have hcolumns (d : Draft) : Draft.store "id_columns" (Json.ofStrings m.logColumns) d =
      .ok { d with logColumns := some m.logColumns } :=
    congrArg (Except.map _) (Json.asList_ofStrings m.logColumns)
  have hread : shape.read Draft.store {} m.toJson =
      .ok (⟨some m.entityType, some m.logColumns, some m.tableColumns, some m.columnTypes⟩,
        false) := by
    rw [toJson_eq, Shape.read_object]
    simp [shape, bind, Except.bind, pure, Except.pure, Except.map, htypes, horiginal, htype,
      hcolumns]
  rw [ofJson, hread]
  rfl

end IdMapping

namespace EventModel

theorem toJson_eq (m : EventModel) : m.toJson = .object [
    ("event_log_table", .string m.log), ("event_type_column", .string m.kindColumn),
    ("id_infos", .array (m.mappings.map IdMapping.toJson)),
    ("original_table", .string m.table)] := by
  have hlog : "event_log_table" < "original_table" := by decide
  have hkind : ¬"event_type_column" < "event_log_table" := by decide
  have hkind' : "event_type_column" < "original_table" := by decide
  have hids : ¬"id_infos" < "event_log_table" := by decide
  have hids' : ¬"id_infos" < "event_type_column" := by decide
  have hids'' : "id_infos" < "original_table" := by decide
  simp [toJson, Json.ofMembers, insertEntry, hlog, hkind, hkind', hids, hids', hids'']

def Declares (j : Json) (m : EventModel) : Prop :=
  ∃ byPosition, shape.read Draft.store {} j =
    .ok (⟨some m.table, some m.log, m.kindColumn, some m.mappings⟩, byPosition)

theorem declares_toJson (m : EventModel) : Declares m.toJson m := by
  refine ⟨false, ?_⟩
  have hlog (d : Draft) : Draft.store "event_log_table" (.string m.log) d =
      .ok { d with log := some m.log } := rfl
  have hkind (d : Draft) : Draft.store "event_type_column" (.string m.kindColumn) d =
      .ok { d with kindColumn := m.kindColumn } := rfl
  have hmappings : (Json.array (m.mappings.map IdMapping.toJson)).asList IdMapping.ofJson =
      .ok m.mappings := Json.asList_map fun i _ => i.ofJson_toJson
  have hids (d : Draft) : Draft.store "id_infos" (.array (m.mappings.map IdMapping.toJson)) d =
      .ok { d with mappings := some m.mappings } := congrArg (Except.map _) hmappings
  have htable (d : Draft) : Draft.store "original_table" (.string m.table) d =
      .ok { d with table := some m.table } := rfl
  rw [toJson_eq, Shape.read_object]
  simp [shape, bind, Except.bind, pure, Except.pure, Except.map, hlog, hkind, hids, htable]

theorem ofJson_of_declares {j : Json} {m : EventModel} (h : Declares j m) :
    ofJson j = m.checked.mapError fun e => .refused e.message := by
  obtain ⟨byPosition, hread⟩ := h
  rw [ofJson, hread]
  rfl

theorem eq_of_checked {m m' : EventModel} (h : m.checked = .ok m') : m' = m := by
  obtain ⟨_, hm⟩ := map_eq_ok h
  exact hm

theorem ofJson_ok_iff {j : Json} {m : EventModel} :
    ofJson j = .ok m ↔ Declares j m ∧ m.checked = .ok m := by
  constructor
  · intro h
    cases hread : shape.read Draft.store {} j with
    | error e =>
      rw [ofJson, hread] at h
      cases h
    | ok read =>
      obtain ⟨⟨table, log, kindColumn, mappings⟩, byPosition⟩ := read
      rw [ofJson, hread] at h
      -- A model without one of the other fields is refused before it is checked.
      obtain _ | table := table
      · cases byPosition <;> cases h
      obtain _ | log := log
      · cases byPosition <;> cases h
      obtain _ | mappings := mappings
      · cases byPosition <;> cases h
      have hdeclares : Declares j ⟨table, log, kindColumn, mappings⟩ := ⟨byPosition, hread⟩
      change (checked ⟨table, log, kindColumn, mappings⟩).mapError _ = _ at h
      cases hchecked : checked ⟨table, log, kindColumn, mappings⟩ with
      | error e =>
        rw [hchecked] at h
        cases h
      | ok m' =>
        rw [hchecked] at h
        cases h
        obtain rfl := eq_of_checked hchecked
        exact ⟨hdeclares, hchecked⟩
  · intro ⟨hdeclares, hchecked⟩
    rw [ofJson_of_declares hdeclares, hchecked]
    rfl

def Draft.Unset (field : String) (d : Draft) : Prop :=
  match field with
  | "original_table" => d.table = none
  | "event_log_table" => d.log = none
  | "event_type_column" => d.kindColumn = defaultKindColumn
  | _ => d.mappings = none

theorem Draft.fieldwise : shape.Fieldwise Draft.store {} Draft.Unset where
  start field hfield := by
    simp only [shape, List.mem_cons, List.not_mem_nil, or_false] at hfield
    rcases hfield with rfl | rfl | rfl | rfl <;> rfl
  keeps name hname field hfield hne j d d' hd h := by
    simp only [shape, List.mem_cons, List.not_mem_nil, or_false] at hname hfield
    rcases hname with rfl | rfl | rfl | rfl <;> obtain ⟨_, rfl⟩ := map_eq_ok h <;>
      rcases hfield with rfl | rfl | rfl | rfl <;> first | exact absurd rfl hne | exact hd

/-- `full` is `j` with the default of the kind column written out. -/
def Completes : Json → Json → Prop :=
  shape.Completes "event_type_column" (.string defaultKindColumn)

theorem Completes.ofJson_eq {j full : Json} (h : Completes j full) : ofJson full = ofJson j := by
  rw [ofJson, ofJson, Shape.Completes.read_eq h Draft.fieldwise (by decide) fun d hd => ?_]
  exact congrArg (fun c => Except.ok { d with kindColumn := c }) (Eq.symm hd)

end EventModel

end SearchSync
