import SearchSync.EventLog.Basic
import SearchSync.Text

/-!
# Change capture by triggers

A trigger takes the next id from a counter shared by all tables and appends a row to the event log
of its table; the clean-up trigger of an event log removes an id from the counter once its row is
gone. An installation drops each trigger before it creates it and stops at the first statement that
the database rejects. A script does not drop what it creates, and as trigger bodies contain
semicolons, a MySQL script ends each statement with another delimiter.
-/

namespace SearchSync

inductive Dialect
  | mysql
  | postgresql
  deriving DecidableEq, Repr

namespace Dialect

def all : List Dialect := [.mysql, .postgresql]

def name : Dialect → String
  | .mysql => "mysql"
  | .postgresql => "postgresql"

end Dialect

structure LogEntry where
  log : String
  kindColumn : String
  kind : ChangeKind
  columns : List (String × String)
  deriving DecidableEq, Repr

namespace LogEntry

/-- The name of the row that ids are copied from: a deleted row has no new state. -/
def rowName (e : LogEntry) : String :=
  match e.kind with
  | .delete => "OLD"
  | .insert | .update => "NEW"

def columnList (e : LogEntry) : String := ", ".intercalate (e.columns.map (·.1))

def valueList (e : LogEntry) : String :=
  ", ".intercalate (e.columns.map fun c => e.rowName ++ "." ++ c.2)

def insertText (e : LogEntry) (id : String) : String :=
  "    INSERT INTO " ++ e.log ++ "(id, " ++ e.kindColumn ++ ", " ++ e.columnList ++ ")\n" ++
    "        VALUES(" ++ id ++ ", " ++ Decimal.natText e.kind.code ++ ", " ++ e.valueList ++ ");"

end LogEntry

inductive TriggerBody
  | record (procedure : String) (entry : LogEntry)
  | cleanUp (counter : String)
  deriving DecidableEq, Repr

/-- The text of a trigger body. In MySQL a procedure hands the id over in a variable, in
PostgreSQL a function returns it. -/
def TriggerBody.text (d : Dialect) : TriggerBody → String
  | .record procedure entry =>
    match d with
    | .mysql => "    CALL " ++ procedure ++ "(@unique_id);\n" ++ entry.insertText "@unique_id"
    | .postgresql => entry.insertText (procedure ++ "()")
  | .cleanUp counter => "    DELETE FROM " ++ counter ++ " WHERE id = OLD.id;"

inductive Statement
  | createCounter (dialect : Dialect) (table : String)
  | dropCounter (table : String)
  | createProcedure (name counter : String)
  | dropProcedure (name : String)
  | createFunction (name counter : String)
  /-- Creates or replaces the PostgreSQL function behind a trigger. -/
  | createTriggerFunction (name : String) (body : TriggerBody)
  | dropFunction (name : String)
  | createTrigger (name : String) (kind : ChangeKind) (table : String) (body : TriggerBody)
  /-- Creates a PostgreSQL trigger, which calls a function. -/
  | createCallingTrigger (name : String) (kind : ChangeKind) (table function : String)
  | dropTrigger (name : String)
  /-- Drops a PostgreSQL trigger, whose name belongs to a table. -/
  | dropTriggerOn (name table : String)
  deriving DecidableEq, Repr

def Statement.text : Statement → String
  | .createCounter d table =>
    "CREATE TABLE IF NOT EXISTS " ++ table ++ " (\n    id " ++
      (match d with
        | .mysql => "BIGINT(64) NOT NULL AUTO_INCREMENT"
        | .postgresql => "BIGSERIAL NOT NULL") ++ ",\n    PRIMARY KEY (id)\n);"
  | .dropCounter table => "DROP TABLE IF EXISTS " ++ table ++ ";"
  | .createProcedure name counter =>
    "CREATE PROCEDURE " ++ name ++ "\n(OUT ret BIGINT)\nBEGIN\n    INSERT INTO " ++ counter ++
      " VALUES ();\n    SET ret = last_insert_id();\nEND;"
  | .dropProcedure name => "DROP PROCEDURE IF EXISTS " ++ name ++ ";"
  | .createFunction name counter =>
    "CREATE FUNCTION " ++ name ++ "() RETURNS BIGINT AS $$\nDECLARE\n    ret BIGINT;\nBEGIN\n" ++
      "    INSERT INTO " ++ counter ++ " DEFAULT VALUES RETURNING id INTO ret;\n" ++
      "    RETURN ret;\nEND;\n$$ LANGUAGE plpgsql;"
  | .createTriggerFunction name body =>
    "CREATE OR REPLACE FUNCTION " ++ name ++ "() RETURNS TRIGGER AS $$\nBEGIN\n" ++
      body.text .postgresql ++ "\n    RETURN NULL;\nEND;\n$$ LANGUAGE plpgsql;"
  | .dropFunction name => "DROP FUNCTION IF EXISTS " ++ name ++ "();"
  | .createTrigger name kind table body =>
    "CREATE TRIGGER " ++ name ++ " AFTER " ++ kind.name ++ " ON " ++ table ++
      "\nFOR EACH ROW\nBEGIN\n" ++ body.text .mysql ++ "\nEND;"
  | .createCallingTrigger name kind table function =>
    "CREATE TRIGGER " ++ name ++ " AFTER " ++ kind.name ++ " ON " ++ table ++
      "\nFOR EACH ROW EXECUTE PROCEDURE " ++ function ++ "();"
  | .dropTrigger name => "DROP TRIGGER IF EXISTS " ++ name ++ ";"
  | .dropTriggerOn name table => "DROP TRIGGER IF EXISTS " ++ name ++ " ON " ++ table ++ ";"

/-- The dialect and the names of the shared counter table and of the procedure that hands out its
next id. -/
structure TriggerSource where
  dialect : Dialect
  counter : String
  procedure : String
  deriving DecidableEq, Repr

inductive TriggerError
  | noIdColumns (table : String)
  deriving DecidableEq, Repr

def TriggerError.message : TriggerError → String
  | .noIdColumns table =>
    "Event model for table '" ++ table ++ "' doesn't contain any id columns"

namespace Dialect

/-- The counter table's name where none is given. MySQL needs it quoted. -/
def defaultCounter : Dialect → String
  | .mysql => "`_____unique____id____hsearch`"
  | .postgresql => "_____unique____id____hsearch"

def defaultProcedure : Dialect → String
  | .mysql | .postgresql => "get_unique_id_hsearch"

def triggerSource (d : Dialect) (counter procedure : Option String) : TriggerSource :=
  ⟨d, counter.getD d.defaultCounter, procedure.getD d.defaultProcedure⟩

end Dialect

def triggerName (table : String) (kind : ChangeKind) : String :=
  table ++ "_updates_hsearch_" ++ kind.name

def cleanupName (log : String) : String := log ++ "_cleanup_hsearch"

namespace TriggerSource

/-- The name of the function behind a PostgreSQL trigger. -/
def functionName (trigger : String) : String := trigger ++ "_fn"

def setup (s : TriggerSource) : List Statement :=
  match s.dialect with
  | .mysql => [.createCounter .mysql s.counter, .dropProcedure s.procedure,
      .createProcedure s.procedure s.counter]
  | .postgresql => [.createCounter .postgresql s.counter, .dropFunction s.procedure,
      .createFunction s.procedure s.counter]

def recreateCounter (s : TriggerSource) : List Statement :=
  [.dropCounter s.counter, .createCounter s.dialect s.counter]

def create (s : TriggerSource) (name : String) (kind : ChangeKind) (table : String)
    (body : TriggerBody) : List Statement :=
  match s.dialect with
  | .mysql => [.createTrigger name kind table body]
  | .postgresql => [.createTriggerFunction (functionName name) body,
      .createCallingTrigger name kind table (functionName name)]

def drop (s : TriggerSource) (name table : String) : List Statement :=
  match s.dialect with
  | .mysql => [.dropTrigger name]
  | .postgresql => [.dropTriggerOn name table, .dropFunction (functionName name)]

def logEntry (m : EventModel) (kind : ChangeKind) : LogEntry :=
  ⟨m.log, m.kindColumn, kind, m.mappings.flatMap IdMapping.columnPairs⟩

def createTrigger (s : TriggerSource) (m : EventModel) (kind : ChangeKind) :
    Except TriggerError (List Statement) :=
  let entry := logEntry m kind
  if entry.columns.isEmpty then .error (.noIdColumns m.table)
  else .ok (s.create (triggerName m.table kind) kind m.table (.record s.procedure entry))

def dropTrigger (s : TriggerSource) (m : EventModel) (kind : ChangeKind) : List Statement :=
  s.drop (triggerName m.table kind) m.table

def createCleanup (s : TriggerSource) (m : EventModel) : List Statement :=
  s.create (cleanupName m.log) .delete m.log (.cleanUp s.counter)

def dropCleanup (s : TriggerSource) (m : EventModel) : List Statement :=
  s.drop (cleanupName m.log) m.log

end TriggerSource

structure GenerationError where
  kind : ChangeKind
  table : String
  cause : TriggerError
  deriving DecidableEq, Repr

namespace GenerationError

def message (e : GenerationError) : String :=
  "Failed to generate " ++ e.kind.name ++ " trigger for table '" ++ e.table ++ "'"

def causes (e : GenerationError) : List String := [e.cause.message]

end GenerationError

namespace TriggerSource

def setupStatements (s : TriggerSource) (models : List EventModel) :
    Except GenerationError (List Statement) := do
  let mut statements := s.setup
  for m in models do
    statements := statements ++ s.createCleanup m
    for kind in ChangeKind.all do
      match s.createTrigger m kind with
      | .ok create => statements := statements ++ create
      | .error cause => throw ⟨kind, m.table, cause⟩
  return statements

def teardownStatements (s : TriggerSource) (models : List EventModel) : List Statement :=
  models.flatMap fun m => ChangeKind.all.flatMap (s.dropTrigger m) ++ s.dropCleanup m

end TriggerSource

namespace Script

/-- A statement without white space and then without semicolons at its end. -/
def trimStatement (statement : String) : String :=
  String.ofList (Text.dropEndWhile (· == ';') (Text.trimEnd statement.toList))

def render (d : Dialect) (statements : List String) : String :=
  match d with
  | .mysql =>
    "DELIMITER //\n" ++ String.join (statements.map fun s => trimStatement s ++ "\n//\n") ++
      "DELIMITER ;\n"
  | .postgresql => "\n\n".intercalate statements ++ "\n"

end Script

/-- Something that runs the text of a statement, may fail with a text of its own, and changes a
state either way. -/
structure Executor (σ : Type) where
  execute : String → σ → Except String Unit × σ

inductive InstallError
  | rejected (statement : String) (cause : String)
  | notGenerated (kind : ChangeKind) (table : String) (cause : TriggerError)
  deriving DecidableEq, Repr

namespace InstallError

def message : InstallError → String
  | .rejected statement _ => "Failed to execute statement: " ++ statement
  | .notGenerated kind table _ =>
    "Failed to generate " ++ kind.name ++ " trigger for table '" ++ table ++ "'"

def causes : InstallError → List String
  | .rejected _ cause => [cause]
  | .notGenerated _ _ cause => [cause.message]

end InstallError

abbrev Installation (σ : Type) := ExceptT InstallError (StateM σ)

namespace Executor

variable {σ : Type}

def submit (e : Executor σ) (statement : Statement) : Installation σ Unit := fun s =>
  match e.execute statement.text s with
  | (.ok (), s) => (.ok (), s)
  | (.error cause, s) => (.error (.rejected statement.text cause), s)

def runAll (e : Executor σ) (statements : List Statement) : Installation σ Nat := do
  for statement in statements do
    e.submit statement
  return statements.length

def install (e : Executor σ) (source : TriggerSource) (models : List EventModel) :
    Installation σ Nat := do
  let mut executed ← e.runAll source.setup
  for m in models do
    executed := executed + (← e.runAll (source.dropCleanup m))
    executed := executed + (← e.runAll (source.createCleanup m))
    for kind in ChangeKind.all do
      executed := executed + (← e.runAll (source.dropTrigger m kind))
      match source.createTrigger m kind with
      | .ok create => executed := executed + (← e.runAll create)
      | .error cause => throw (.notGenerated kind m.table cause)
  return executed

/-- Drops all triggers of each model. The counter stays, so that ids go on rising. -/
def uninstall (e : Executor σ) (source : TriggerSource) (models : List EventModel) :
    Installation σ Nat := do
  let mut executed := 0
  for m in models do
    for kind in ChangeKind.all do
      executed := executed + (← e.runAll (source.dropTrigger m kind))
    executed := executed + (← e.runAll (source.dropCleanup m))
  return executed

def recreateCounter (e : Executor σ) (source : TriggerSource) : Installation σ Nat :=
  e.runAll source.recreateCounter

end Executor

end SearchSync
