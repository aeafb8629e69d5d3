import SearchSync.Schema.Basic
import SearchSync.Trigger.Basic

/-!
# Configurations

The dialect, the names of the counter, the monitored tables and the index roots. A configuration
read from a text is checked as a whole: each table has one model, and the roots make a schema.
-/

namespace SearchSync

inductive FileError
  | missing
  | isDirectory
  | other (reason : String)
  deriving DecidableEq, Repr

def FileError.message : FileError → String
  | .missing => "No such file or directory (os error 2)"
  | .isDirectory => "Is a directory (os error 21)"
  | .other reason => reason

inductive SchemaFileError
  | unreadable (error : FileError)
  /-- The text is refused. What the reader of YAML says about it is not modelled, and `message` has
  one text of its own for all refusals. -/
  | notSchema
  deriving DecidableEq, Repr

namespace SchemaFileError

def message : SchemaFileError → String
  | .unreadable e => "Failed to read schema file: " ++ e.message
  | .notSchema => "Failed to parse YAML: not a valid schema"

def causes : SchemaFileError → List String
  | .unreadable e => [e.message]
  | .notSchema => []

end SchemaFileError

structure Config where
  dialect : Dialect
  counter : Option String
  procedure : Option String
  models : List EventModel
  roots : List RootType
  deriving DecidableEq

inductive ConfigError
  | unreadable (error : FileError)
  /-- The text is refused. What the reader of YAML says about it (the line, the field, the tag) is
  not modelled, and `message` has one text of its own for all refusals. -/
  | notConfig
  | invalidSchema (error : SchemaError)
  | duplicateTable (table : String)
  deriving DecidableEq, Repr

namespace ConfigError

def message : ConfigError → String
  | .unreadable e => "Failed to read config file: " ++ e.message
  | .notConfig => "Failed to parse YAML: not a valid configuration"
  | .invalidSchema e => "Invalid index schema: " ++ e.message
  | .duplicateTable t => "Table '" ++ t ++ "' has more than one event model"

def causes : ConfigError → List String
  | .unreadable e => [e.message]
  | .invalidSchema e => [e.message]
  | _ => []

end ConfigError

structure UncontainedWarning where
  table : String
  type : EntityType
  deriving DecidableEq, Repr

def UncontainedWarning.message (w : UncontainedWarning) : String :=
  "Table '" ++ w.table ++ "' reports changes of '" ++ w.type.name ++
    "', which no index root contains"

namespace Config

def schema (c : Config) : Except SchemaError Schema := Schema.ofRoots c.roots

def source (c : Config) : TriggerSource := c.dialect.triggerSource c.counter c.procedure

def firstRepeatedTable? (c : Config) : Option String :=
  EventModel.firstRepeated? [] (c.models.map (·.table))

def check (c : Config) : Except ConfigError Unit :=
  match c.firstRepeatedTable? with
  | some table => .error (.duplicateTable table)
  | none => (c.schema.mapError .invalidSchema).map fun _ => ()

/-- The reported types that are in no document of a schema, if it has any documents. -/
def warnings (c : Config) (schema : Schema) : List UncontainedWarning :=
  if schema.roots.isEmpty then []
  else
    c.models.flatMap fun m =>
      (m.mappings.filter fun i => !schema.relevantTypes.contains i.entityType).map fun i =>
        ⟨m.table, i.entityType⟩

def setupStatements (c : Config) : Except GenerationError (List Statement) :=
  c.source.setupStatements c.models

def teardownStatements (c : Config) : List Statement := c.source.teardownStatements c.models

def recreateStatements (c : Config) : List Statement := c.source.recreateCounter

def script (c : Config) (statements : List Statement) : String :=
  Script.render c.dialect (statements.map (·.text))

end Config

end SearchSync
