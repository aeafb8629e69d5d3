import SearchSync.Config.Basic
import SearchSync.EventLog.Basic
import SearchSync.Schema.Basic
import SearchSync.Yaml.Document

/-!
# Configurations in YAML

Decoding an event model or a schema checks it; root declarations by themselves are not checked.
-/

namespace SearchSync

def ColumnType.ofYaml : Yaml.Decoder ColumnType :=
  .variant (ColumnType.all.map fun t => (t.name, t))

def EntityType.ofYaml : Yaml.Decoder EntityType := fun d n => do
  return ⟨← Yaml.Decoder.text d n⟩

def IdMapping.ofYaml : Yaml.Decoder IdMapping := fun d n => do
  let ms ← Yaml.Decoder.members d n
  return {
    entityType := ← Yaml.Decoder.field "entity_type" EntityType.ofYaml d ms
    logColumns := ← Yaml.Decoder.field "id_columns" (.list .text) d ms
    tableColumns := ← Yaml.Decoder.field "columns_in_original" (.list .text) d ms
    columnTypes := ← Yaml.Decoder.field "column_types" (.map ColumnType.ofYaml) d ms }

def EventModel.ofYaml : Yaml.Decoder EventModel := fun d n => do
  let ms ← Yaml.Decoder.members d n
  let model : EventModel := {
    table := ← Yaml.Decoder.field "original_table" .text d ms
    log := ← Yaml.Decoder.field "event_log_table" .text d ms
    kindColumn := ← Yaml.Decoder.fieldOr "event_type_column" .text defaultKindColumn d ms
    mappings := ← Yaml.Decoder.field "id_infos" (.list IdMapping.ofYaml) d ms }
  liftM model.checked.toOption

def ContainedType.ofYaml : Yaml.Decoder ContainedType := fun d n => do
  let ms ← Yaml.Decoder.members d n
  return {
    entityType := ← Yaml.Decoder.field "entity_type" EntityType.ofYaml d ms
    idFields := ← Yaml.Decoder.fieldOr "id_fields" (.list .text) [] d ms
    backReference := ← Yaml.Decoder.fieldOr "back_reference" .optionalText none d ms }

def RootType.ofYaml : Yaml.Decoder RootType := fun d n => do
  let ms ← Yaml.Decoder.members d n
  return {
    entityType := ← Yaml.Decoder.field "entity_type" EntityType.ofYaml d ms
    idProperty := ← Yaml.Decoder.fieldOr "id_property" .text defaultIdProperty d ms
    idType := ← Yaml.Decoder.fieldOr "id_type" ColumnType.ofYaml defaultIdType d ms
    contained := ← Yaml.Decoder.fieldOr "contained" (.list ContainedType.ofYaml) [] d ms }

def Schema.ofYaml : Yaml.Decoder Schema := fun d n => do
  let ms ← Yaml.Decoder.members d n
  let roots ← Yaml.Decoder.fieldOr "roots" (.list RootType.ofYaml) [] d ms
  liftM (ofRoots roots).toOption

def Schema.ofFile (file : Except FileError String) : Except SchemaFileError Schema :=
  match file with
  | .error e => .error (.unreadable e)
  | .ok text =>
    match Schema.ofYaml.readText? text with
    | some s => .ok s
    | none => .error .notSchema

def Dialect.ofYaml : Yaml.Decoder Dialect := .variant (Dialect.all.map fun d => (d.name, d))

namespace Config

def ofYaml : Yaml.Decoder Config := fun d n => do
  let ms ← Yaml.Decoder.members d n
  return {
    dialect := ← Yaml.Decoder.field "dialect" Dialect.ofYaml d ms
    counter := ← Yaml.Decoder.fieldOr "unique_id_table" .optionalText none d ms
    procedure := ← Yaml.Decoder.fieldOr "unique_id_procedure" .optionalText none d ms
    models := ← Yaml.Decoder.fieldOr "event_models" (.list EventModel.ofYaml) [] d ms
    roots := ← Yaml.Decoder.fieldOr "roots" (.list RootType.ofYaml) [] d ms }

/-- The configuration in a text, with the warnings about it. -/
def ofText (text : String) : Except ConfigError (Config × List UncontainedWarning) := do
  let some c := ofYaml.readText? text | throw .notConfig
  c.check
  return (c, (c.schema.map c.warnings).toOption.getD [])

def ofFile (file : Except FileError String) :
    Except ConfigError (Config × List UncontainedWarning) := do
  ofText (← file.mapError .unreadable)

end Config

end SearchSync
