import SearchSync.Config.Basic
import SearchSync.Entity.Basic
import SearchSync.EventLog.Basic
import SearchSync.Json.Basic
import SearchSync.Schema.Basic

/-!
# JSON forms

Decoding an event model or a schema checks it, so one that cannot be used is never read. A root
declaration by itself is not checked.
-/

namespace SearchSync

open Json (Decoded)

def ColumnType.ofJson (j : Json) : Decoded ColumnType :=
  j.asVariant (ColumnType.all.map fun t => (t.name, t))

def EntityType.ofJson (j : Json) : Decoded EntityType := j.asString.map EntityType.mk

def EntityId.ofJson (j : Json) : Decoded EntityId :=
  match EntityId.ofJson? j with
  | some id => .ok id
  | none => .error (.noAlternative "IdValue")

namespace Record

structure Draft where
  entityType : Option EntityType := none
  id : Option EntityId := none
  data : List (String × Json) := []

def shape : Json.Shape := ⟨"struct EntityRecord", ["entity_type", "id", "data"]⟩

def Draft.store (field : String) (j : Json) (d : Draft) : Decoded Draft :=
  match field with
  | "entity_type" => (EntityType.ofJson j).map fun t => { d with entityType := some t }
  | "id" => (EntityId.ofJson j).map fun id => { d with id := some id }
  | _ => j.asMembers.map fun members => { d with data := members }

def ofJson (j : Json) : Decoded Record := do
  let (d, byPosition) ← shape.read Draft.store {} j
  return {
    entityType := ← shape.require byPosition "entity_type" d.entityType
    id := ← shape.require byPosition "id" d.id
    data := d.data }

end Record

def ChangeKind.ofJson (j : Json) : Decoded ChangeKind :=
  j.asVariant (ChangeKind.all.map fun k => (k.name, k))

namespace IdMapping

structure Draft where
  entityType : Option EntityType := none
  logColumns : Option (List String) := none
  tableColumns : Option (List String) := none
  columnTypes : Option (NameMap ColumnType) := none

def shape : Json.Shape :=
  ⟨"struct IdInfo", ["entity_type", "id_columns", "columns_in_original", "column_types"]⟩

def columnTypesOfJson (j : Json) : Decoded (NameMap ColumnType) := do
  let members ← j.asMembers
  let entries ← members.mapM fun m => do return (m.1, ← ColumnType.ofJson m.2)
  return NameMap.ofList entries

def Draft.store (field : String) (j : Json) (d : Draft) : Decoded Draft :=
  match field with
  | "entity_type" => (EntityType.ofJson j).map fun t => { d with entityType := some t }
  | "id_columns" => (j.asList Json.asString).map fun cs => { d with logColumns := some cs }
  | "columns_in_original" =>
    (j.asList Json.asString).map fun cs => { d with tableColumns := some cs }
  | _ => (columnTypesOfJson j).map fun ts => { d with columnTypes := some ts }

def ofJson (j : Json) : Decoded IdMapping := do
  let (d, byPosition) ← shape.read Draft.store {} j
  return {
    entityType := ← shape.require byPosition "entity_type" d.entityType
    logColumns := ← shape.require byPosition "id_columns" d.logColumns
    tableColumns := ← shape.require byPosition "columns_in_original" d.tableColumns
    columnTypes := ← shape.require byPosition "column_types" d.columnTypes }

def toJson (m : IdMapping) : Json :=
  Json.ofMembers [("entity_type", .string m.entityType.name),
    ("id_columns", Json.ofStrings m.logColumns),
    ("columns_in_original", Json.ofStrings m.tableColumns),
    ("column_types", .object (m.columnTypes.entries.map fun e => (e.1, .string e.2.name)))]

end IdMapping

namespace EventModel

structure Draft where
  table : Option String := none
  log : Option String := none
  kindColumn : String := defaultKindColumn
  mappings : Option (List IdMapping) := none

def shape : Json.Shape :=
  ⟨"struct RawEventModel", ["original_table", "event_log_table", "event_type_column", "id_infos"]⟩

def Draft.store (field : String) (j : Json) (d : Draft) : Decoded Draft :=
  match field with
  | "original_table" => j.asString.map fun s => { d with table := some s }
  | "event_log_table" => j.asString.map fun s => { d with log := some s }
  | "event_type_column" => j.asString.map fun s => { d with kindColumn := s }
  | _ => (j.asList IdMapping.ofJson).map fun ms => { d with mappings := some ms }

def ofJson (j : Json) : Decoded EventModel := do
  let (d, byPosition) ← shape.read Draft.store {} j
  let model : EventModel := {
    table := ← shape.require byPosition "original_table" d.table
    log := ← shape.require byPosition "event_log_table" d.log
    kindColumn := d.kindColumn
    mappings := ← shape.require byPosition "id_infos" d.mappings }
  model.checked.mapError fun e => .refused e.message

def toJson (m : EventModel) : Json :=
  Json.ofMembers [("original_table", .string m.table), ("event_log_table", .string m.log),
    ("event_type_column", .string m.kindColumn),
    ("id_infos", .array (m.mappings.map IdMapping.toJson))]

end EventModel

namespace ContainedType

structure Draft where
  entityType : Option EntityType := none
  idFields : List String := []
  backReference : Option String := none

def shape : Json.Shape :=
  ⟨"struct ContainedTypeConfig", ["entity_type", "id_fields", "back_reference"]⟩

def Draft.store (field : String) (j : Json) (d : Draft) : Decoded Draft :=
  match field with
  | "entity_type" => (EntityType.ofJson j).map fun t => { d with entityType := some t }
  | "id_fields" => (j.asList Json.asString).map fun fs => { d with idFields := fs }
  | _ => j.asOptionalString.map fun b => { d with backReference := b }

def ofJson (j : Json) : Decoded ContainedType := do
  let (d, byPosition) ← shape.read Draft.store {} j
  return {
    entityType := ← shape.require byPosition "entity_type" d.entityType
    idFields := d.idFields
    backReference := d.backReference }

def toJson (c : ContainedType) : Json :=
  Json.ofMembers [("entity_type", .string c.entityType.name),
    ("id_fields", Json.ofStrings c.idFields),
    ("back_reference", (c.backReference.map Json.string).getD .null)]

end ContainedType

namespace RootType

structure Draft where
  entityType : Option EntityType := none
  idProperty : String := defaultIdProperty
  idType : ColumnType := defaultIdType
  contained : List ContainedType := []

def shape : Json.Shape :=
  ⟨"struct RootTypeConfig", ["entity_type", "id_property", "id_type", "contained"]⟩

def Draft.store (field : String) (j : Json) (d : Draft) : Decoded Draft :=
  match field with
  | "entity_type" => (EntityType.ofJson j).map fun t => { d with entityType := some t }
  | "id_property" => j.asString.map fun s => { d with idProperty := s }
  | "id_type" => (ColumnType.ofJson j).map fun t => { d with idType := t }
  | _ => (j.asList ContainedType.ofJson).map fun cs => { d with contained := cs }

def ofJson (j : Json) : Decoded RootType := do
  let (d, byPosition) ← shape.read Draft.store {} j
  return {
    entityType := ← shape.require byPosition "entity_type" d.entityType
    idProperty := d.idProperty
    idType := d.idType
    contained := d.contained }

def toJson (r : RootType) : Json :=
  Json.ofMembers [("entity_type", .string r.entityType.name), ("id_property", .string r.idProperty),
    ("id_type", .string r.idType.name),
    ("contained", .array (r.contained.map ContainedType.toJson))]

end RootType

namespace Schema

def shape : Json.Shape := ⟨"struct RawIndexSchema", ["roots"]⟩

def ofJson (j : Json) : Decoded Schema := do
  let (roots, _) ← shape.read (fun _ value _ => value.asList RootType.ofJson) [] j
  (ofRoots roots).mapError fun e => .refused e.message

def toJson (s : Schema) : Json := Json.ofMembers [("roots", .array (s.roots.map RootType.toJson))]

end Schema

def Dialect.ofJson (j : Json) : Json.Decoded Dialect :=
  j.asVariant (Dialect.all.map fun d => (d.name, d))

def Config.toJson (c : Config) : Json :=
  Json.ofMembers [("dialect", .string c.dialect.name),
    ("unique_id_table", (c.counter.map Json.string).getD .null),
    ("unique_id_procedure", (c.procedure.map Json.string).getD .null),
    ("event_models", .array (c.models.map EventModel.toJson)),
    ("roots", .array (c.roots.map RootType.toJson))]

end SearchSync
