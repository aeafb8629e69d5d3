import SearchSync.Config.Yaml
import SearchSync.Connection.Address

/-!
# The command line

An option's value may stand behind an equals sign or be the next argument. What was given is judged
when the next option comes or the level ends, so that a request for help may come before a fault.
Scripts are printed, failures are reported with all that is behind them.
-/

namespace SearchSync.Cli

inductive Refusal
  | helpWanted
  | misused
  deriving DecidableEq, Repr

structure OptionName where
  name : String
  mayBeEmpty : Bool
  deriving DecidableEq, Repr

structure Level where
  options : List OptionName
  flags : List String
  subcommands : List String
  deriving DecidableEq, Repr

structure Given where
  settled : List (String × String)
  /-- The last option, whose value may be still to come. -/
  pending : Option (String × Option String)
  isClosed : Bool
  deriving DecidableEq, Repr

namespace Given

def none : Given := ⟨[], .none, false⟩

def awaitsValue (g : Given) : Bool :=
  match g.pending with
  | some (_, .none) => true
  | _ => false

def add (level : Level) (name value : String) (g : Given) : Except Refusal Given :=
  if (g.settled.lookup name).isSome then .error .misused
  else if value.isEmpty && level.options.any (fun o => o.name = name && !o.mayBeEmpty) then
    .error .misused
  else .ok { g with settled := g.settled ++ [(name, value)] }

def settle (level : Level) (g : Given) : Except Refusal Given :=
  match g.pending with
  | .none => .ok g
  | some (_, .none) => .error .misused
  | some (name, some value) => add level name value { g with pending := .none }

def value? (g : Given) (name : String) : Option String := g.settled.lookup name

def has (g : Given) (name : String) : Bool := (g.value? name).isSome

def long (level : Level) (name : String) (attached : Option String) (g : Given) :
    Except Refusal Given :=
  if name = "help" then
    match attached with
    | some _ => .error .misused
    | .none => (g.settle level).bind fun _ => .error .helpWanted
  else if level.options.any (·.name = name) then
    (g.settle level).bind fun g =>
      match attached with
      | some value => g.add level name value
      | .none => .ok { g with pending := some (name, .none) }
  else if level.flags.contains name then
    match attached with
    | some _ => .error .misused
    | .none => (g.settle level).bind (add level name "")
  else .error .misused

def splitAttached (cs : List Char) : String × Option String :=
  match cs.span (· ≠ '=') with
  | (name, []) => (String.ofList name, .none)
  | (name, _ :: value) => (String.ofList name, some (String.ofList value))

def argument (level : Level) (arg : String) (g : Given) : Except Refusal Given :=
  if g.isClosed then .error .misused
  else
    match arg.toList with
    | ['-', '-'] => .ok { g with isClosed := true }
    | '-' :: '-' :: option =>
      let (name, attached) := splitAttached option
      g.long level name attached
    | '-' :: 'h' :: _ => (g.settle level).bind fun _ => .error .helpWanted
    | '-' :: _ :: _ => .error .misused
    | _ =>
      match g.pending with
      | some (name, .none) => .ok { g with pending := some (name, some arg) }
      | _ => .error .misused

end Given

namespace Level

def canHelp (level : Level) : List String → Bool
  | [] => true
  | [topic] => topic = "help" || level.subcommands.contains topic
  | _ => false

/-- Reads the arguments of a level up to its subcommand, which comes with the arguments behind
it. -/
def read (level : Level) (g : Given) :
    List String → Except Refusal (Given × Option (String × List String))
  | [] => .ok (g, none)
  | arg :: rest =>
    let mayBeCommand := !g.isClosed && !g.awaitsValue
    if mayBeCommand && level.subcommands.contains arg then .ok (g, some (arg, rest))
    else if mayBeCommand && !level.subcommands.isEmpty && arg = "help" then
      .error (if level.canHelp rest then .helpWanted else .misused)
    else (g.argument level arg).bind fun g => level.read g rest

end Level

inductive Command
  | setupSql
  | teardownSql
  | recreateSql (isConfirmed : Bool)
  | install (address : String)
  | uninstall (address : String)
  deriving DecidableEq, Repr

structure Invocation where
  config : String
  command : Command
  deriving DecidableEq, Repr

namespace Command

def configOption : String := "config"

def addressOption : String := "database-url"

def confirmFlag : String := "yes-i-understand"

def topLevel : Level where
  options := [⟨configOption, false⟩]
  flags := []
  subcommands := ["setup-sql", "teardown-sql", "recreate-unique-id-sql", "install", "uninstall"]

def levelOf : String → Level
  | "recreate-unique-id-sql" => ⟨[], [confirmFlag], []⟩
  | "install" | "uninstall" => ⟨[⟨addressOption, true⟩], [], []⟩
  | _ => ⟨[], [], []⟩

def ofGiven (subcommand : String) (g : Given) : Except Refusal Command :=
  match subcommand with
  | "setup-sql" => .ok .setupSql
  | "teardown-sql" => .ok .teardownSql
  | "recreate-unique-id-sql" => .ok (.recreateSql (g.has confirmFlag))
  | "install" => (g.value? addressOption).elim (.error .misused) (.ok ∘ .install)
  | "uninstall" => (g.value? addressOption).elim (.error .misused) (.ok ∘ .uninstall)
  | _ => .error .misused

def read (subcommand : String) (args : List String) : Except Refusal Command := do
  let level := levelOf subcommand
  let (given, _) ← level.read .none args
  ofGiven subcommand (← given.settle level)

end Command

/-- Reads a command line. The subcommand is judged before what stands in front of it. -/
def Invocation.read (args : List String) : Except Refusal Invocation := do
  let (given, subcommand) ← Command.topLevel.read .none args
  match subcommand with
  | none => throw .misused
  | some (name, rest) => do
    let command ← Command.read name rest
    let given ← given.settle Command.topLevel
    match given.value? Command.configOption with
    | some config => return ⟨config, command⟩
    | none => throw .misused

def usage : String :=
  "Usage: search-sync --config <PATH> <COMMAND>\n\n" ++
  "Commands:\n" ++
  "  setup-sql                                    Print the SQL that sets up change capture\n" ++
  "  teardown-sql                                 Print the SQL that drops all triggers\n" ++
  "  recreate-unique-id-sql --yes-i-understand    Print the SQL that restarts the counter\n" ++
  "  install --database-url <URL>                 Set up change capture in a database\n" ++
  "  uninstall --database-url <URL>               Drop all triggers in a database\n"

structure Environment (σ : Type) where
  file : String → Except FileError String
  /-- The database at an address, if it answers. -/
  database : Dialect → String → Option (Executor σ)

inductive Failure
  | config (path : String) (error : ConfigError)
  | setup (error : GenerationError)
  /-- The counter is only restarted when that was confirmed. -/
  | unconfirmed
  | connection (error : ConnectError)
  | installation (error : InstallError)

namespace Failure

def chain : Failure → List String
  | .config path e => ("Failed to load config from " ++ path) :: e.message :: e.causes
  | .setup e => e.message :: e.causes
  | .unconfirmed =>
    ["Recreating the unique id table restarts event ids from 1; " ++
      "pass --yes-i-understand once the event logs are empty"]
  | .connection e => [e.message]
  | .installation e => e.message :: e.causes

def report (f : Failure) : String := "Error: " ++ ": ".intercalate f.chain ++ "\n"

end Failure

inductive Outcome
  | done (printed : String)
  | refused (refusal : Refusal)
  | failed (failure : Failure)

namespace Outcome

def exitCode : Outcome → Nat
  | .done _ => 0
  | .refused .helpWanted => 0
  | .refused .misused => 2
  | .failed _ => 1

end Outcome

namespace Environment

variable {σ : Type}

def connect (e : Environment σ) (dialect : Dialect) (address : String) :
    Except Failure (Executor σ) :=
  match ConnectError.ofAddress dialect address, e.database dialect address with
  | .unreachable .., some executor => .ok executor
  | error, _ => .error (.connection error)

def runIn (e : Environment σ) (c : Config) (address : String)
    (plan : Executor σ → σ → Except InstallError Nat × σ) (s : σ) : Outcome × σ :=
  match e.connect c.dialect address with
  | .error f => (.failed f, s)
  | .ok executor =>
    match plan executor s with
    | (.ok _, s) => (.done "", s)
    | (.error error, s) => (.failed (.installation error), s)

def command (e : Environment σ) (c : Config) (command : Command) (s : σ) : Outcome × σ :=
  match command with
  | .setupSql =>
    match c.setupStatements with
    | .ok statements => (.done (c.script statements), s)
    | .error error => (.failed (.setup error), s)
  | .teardownSql => (.done (c.script c.teardownStatements), s)
  | .recreateSql true => (.done (c.script c.recreateStatements), s)
  | .recreateSql false => (.failed .unconfirmed, s)
  | .install address => e.runIn c address (fun x => x.install c.source c.models) s
  | .uninstall address => e.runIn c address (fun x => x.uninstall c.source c.models) s

def run (e : Environment σ) (args : List String) (s : σ) : Outcome × σ :=
  match Invocation.read args with
  | .error refusal => (.refused refusal, s)
  | .ok i =>
    match Config.ofFile (e.file i.config) with
    | .error error => (.failed (.config i.config error), s)
    | .ok (c, _) => e.command c i.command s

end Environment

end SearchSync.Cli
