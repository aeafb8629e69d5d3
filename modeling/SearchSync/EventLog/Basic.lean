import SearchSync.Decimal
import SearchSync.Entity.Basic
import SearchSync.NameMap

/-!
# Event logs

Which columns of a table's event log hold the ids of the entities that a row change concerns. A
table that stores an entity has one id mapping; a join table has one for each side, so that one row
change is a change of both entities.
-/

namespace SearchSync

inductive ChangeKind
  | insert
  | update
  | delete
  deriving DecidableEq, Repr

namespace ChangeKind

def all : List ChangeKind := [.insert, .update, .delete]

/-- The number that the triggers write into the kind column. -/
def code : ChangeKind → Nat
  | .insert => 0
  | .update => 1
  | .delete => 2

def name : ChangeKind → String
  | .insert => "INSERT"
  | .update => "UPDATE"
  | .delete => "DELETE"

inductive Unknown
  | code (value : Int)
  | name (text : String)
  deriving DecidableEq, Repr

def Unknown.message : Unknown → String
  | .code n => "Unknown event type value: " ++ Decimal.intText n
  | .name s => "Unknown event type name: " ++ s

def ofCode (n : Int) : Except Unknown ChangeKind :=
  match all.find? fun k => Int.ofNat k.code == n with
  | some k => .ok k
  | none => .error (.code n)

def ofName (s : String) : Except Unknown ChangeKind :=
  match all.find? fun k => k.name == s.map Char.toUpper with
  | some k => .ok k
  | none => .error (.name s)

theorem ofCode_code (k : ChangeKind) : ofCode k.code = .ok k := by cases k <;> rfl

end ChangeKind

structure Change where
  entityType : EntityType
  id : EntityId
  kind : ChangeKind
  deriving DecidableEq, Repr

structure IdMapping where
  entityType : EntityType
  logColumns : List String
  /-- The columns of the monitored table that they are copied from, in the same order. -/
  tableColumns : List String
  columnTypes : NameMap ColumnType
  deriving DecidableEq

structure EventModel where
  table : String
  log : String
  kindColumn : String
  mappings : List IdMapping
  deriving DecidableEq

inductive ModelError
  | noMappings (table : String)
  | columnCountMismatch (entityType : EntityType) (logColumns tableColumns : Nat)
  | noColumns (entityType : EntityType)
  | duplicateColumn (table column : String)
  | untypedColumn (entityType : EntityType) (column : String)
  | missingColumn (log column : String)
  | invalidId (log column : String) (value : Json) (expected : ColumnType)
  | unknownKind (error : ChangeKind.Unknown)

def ModelError.message : ModelError → String
  | .noMappings table => "Event model for table '" ++ table ++ "' has no id mappings"
  | .columnCountMismatch t n m =>
    "Id mapping for '" ++ t.name ++ "' has " ++ Decimal.natText n ++ " event-log columns but " ++
      Decimal.natText m ++ " original columns"
  | .noColumns t => "Id mapping for '" ++ t.name ++ "' has no columns"
  | .duplicateColumn table column =>
    "Duplicate id column '" ++ column ++ "' in event model for table '" ++ table ++ "'"
  | .untypedColumn t column =>
    "No column type declared for id column '" ++ column ++ "' of '" ++ t.name ++ "'"
  | .missingColumn log column =>
    "Event-log row of '" ++ log ++ "' is missing column '" ++ column ++ "'"
  | .invalidId log column value expected =>
    "Column '" ++ column ++ "' of '" ++ log ++ "' holds " ++ value.text ++ ", expected a " ++
      expected.name ++ " id"
  | .unknownKind e => e.message

namespace IdMapping

def single (entityType : EntityType) (logColumn tableColumn : String) (type : ColumnType) :
    IdMapping where
  entityType := entityType
  logColumns := [logColumn]
  tableColumns := [tableColumn]
  columnTypes := NameMap.empty.insert logColumn type

def columnPairs (m : IdMapping) : List (String × String) := m.logColumns.zip m.tableColumns

def check (m : IdMapping) : Except ModelError Unit := do
  if m.logColumns.length ≠ m.tableColumns.length then
    throw (.columnCountMismatch m.entityType m.logColumns.length m.tableColumns.length)
  if m.logColumns.isEmpty then
    throw (.noColumns m.entityType)
  match m.logColumns.find? fun c => !m.columnTypes.contains c with
  | some c => throw (.untypedColumn m.entityType c)
  | none => return ()

def readColumn (m : IdMapping) (log : String) (row : List (String × Json)) (column : String) :
    Except ModelError EntityId := do
  let some value := row.lookup column | throw (.missingColumn log column)
  let some type := m.columnTypes.get? column | throw (.untypedColumn m.entityType column)
  let some id := EntityId.ofColumn? type value | throw (.invalidId log column value type)
  return id

/-- The id that a row of the event log holds: that of its only column, or the ids of its columns
in their declared order. -/
def readId (m : IdMapping) (log : String) (row : List (String × Json)) :
    Except ModelError EntityId := do
  match ← m.logColumns.mapM (m.readColumn log row) with
  | [id] => return id
  | ids => return .composite ids

end IdMapping

namespace EventModel

def defaultKindColumn : String := "eventType"

def firstRepeated? (seen : List String) : List String → Option String
  | [] => none
  | c :: cs => if seen.contains c then some c else firstRepeated? (c :: seen) cs

/-- Checks the mappings in order, where `seen` are the columns of those before. -/
def checkMappings (table : String) (seen : List String) :
    List IdMapping → Except ModelError Unit
  | [] => .ok ()
  | m :: rest => do
    m.check
    match firstRepeated? seen m.logColumns with
    | some c => throw (.duplicateColumn table c)
    | none => checkMappings table (m.logColumns ++ seen) rest

def check (m : EventModel) : Except ModelError Unit :=
  if m.mappings.isEmpty then .error (.noMappings m.table) else checkMappings m.table [] m.mappings

def checked (m : EventModel) : Except ModelError EventModel := m.check.map fun _ => m

/-- The changes that one row of the event log stands for, one for each mapping. -/
def changes (m : EventModel) (kindCode : Int) (row : List (String × Json)) :
    Except ModelError (List Change) := do
  let kind ← (ChangeKind.ofCode kindCode).mapError .unknownKind
  m.mappings.mapM fun mapping => do
    return ⟨mapping.entityType, ← mapping.readId m.log row, kind⟩

end EventModel

end SearchSync
