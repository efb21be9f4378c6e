import TableLoad.CommandLine.Host
import TableLoad.Database.Connection
import TableLoad.Job.Read
import TableLoad.Json.Reader
import TableLoad.Record.Input

namespace TableLoad.CommandLine

variable {m : Type → Type} [Monad m] (host : Host m)

/-- A step of a command: it asks the system, and may fail. -/
abbrev Step (m : Type → Type) (α : Type) := ExceptT LoadError m α

/-- A step that asks nothing. -/
def ofResult {α : Type} (r : Except LoadError α) : Step m α :=
  ExceptT.mk (pure r)

def readJob (o : Options) : Step m Job := do
  match o.job with
  | none => throw (.config "Job file not specified (use -j flag)")
  | some path => ofResult (Job.ofFile path (← host.file path))

def parseConfig (text : String) : Except LoadError Json :=
  match Json.parse? text with
  | some v => .ok v
  | none => .error (.config "Invalid config JSON: the text is no JSON")

/-- The configuration on the command line, or in a file, or an empty one. -/
def readConfig (o : Options) (inline : Option String) : Step m Json := do
  match inline, o.config with
  | some text, _ => ofResult (parseConfig text)
  | none, some path =>
    match (← host.file path).text with
    | .ok text => ofResult (parseConfig text)
    | .error .missing => throw (.fileNotFound path)
    | .error (.unreadable reason) => throw (.io reason)
  | none, none => return .object []

/-- The values of the environment that a template asks for. -/
def environmentFor (template : String) : m (String → Option String) := do
  let values ← (Template.environmentNames template).mapM fun name => do
    return (name, ← host.environment name)
  return fun name => (values.find? (·.1 == name)).bind (·.2)

/-- Opens the destination of a job. Other engines than the native one need extensions, and there
are none. -/
def openDestination (t : Target) (config : Json) : Step m (Destination × Database) := do
  let environment ← ExceptT.lift (environmentFor host t.connection)
  let d ← ofResult (Destination.ofTarget t ⟨config, environment⟩)
  match d.engine, d.path? with
  | .duckdb, none => return (d, .empty)
  | .duckdb, some path =>
    match ← host.openDatabase path with
    | .ok database => return (d, database)
    | .error reason =>
      throw (.connection ("Failed to open DuckDB '" ++ path ++ "': " ++ reason))
  | engine, _ =>
    throw (.connection ("Failed to load " ++ engine.name ++ " extension: there is none"))

/-- The input of a load. A directory can be opened, but reading it fails. -/
def openInput (input : String) (format : RecordFormat) : Step m Input := do
  if input == "-" then return .ofOctets format (← host.standardInput) false
  else match ← host.file input with
    | .octets bs => return .ofOctets format bs false
    | .directory => return .ofOctets format [] true
    | .missing => throw (.fileNotFound input)
    | .unreadable reason => throw (.io reason)

/-- Loads the records of an input into the table of the job. -/
def load (o : Options) (input : String) (format : RecordFormat) (inline : Option String) :
    Step m Unit := do
  let job ← readJob host o
  let config ← readConfig host o inline
  host.print (.log ("Starting load job '" ++ job.name ++ "' into " ++ job.table))
  let source ← openInput host input format
  let (destination, database) ← openDestination host job.target config
  let started ← host.now
  let (result, _, connection) := Load.run Database.Connection.session Input.source destination
    job.table (.ofJob job) source (.ofDatabase database)
  match destination.path? with
  | some path => host.saveDatabase path connection.database
  | none => pure ()
  let report ← ofResult result
  host.print (.loadReport report started (started.durationTo (← host.now)))

/-- Shows the columns of the job's table. -/
def schema (o : Options) (inline : Option String) : Step m Unit := do
  let job ← readJob host o
  let config ← readConfig host o inline
  let (destination, database) ← openDestination host job.target config
  let table ← ofResult (destination.resolve job.table)
  let columns ← ofResult (database.columnsOf table)
  host.print (.schema table.qualified columns)

/-- Tells whether the destination of the job can be reached. That it cannot is no failure. -/
def check (o : Options) (inline : Option String) : Step m Unit := do
  let job ← readJob host o
  let config ← readConfig host o inline
  host.print (.log ("Checking connection to " ++ job.target.engine.name ++ " destination"))
  match ← ExceptT.lift (openDestination host job.target config).run with
  | .ok (_, database) =>
    host.print (.connectionStatus true
      s!"Connection successful. Found {database.tables.length} tables.")
  | .error e => host.print (.connectionStatus false ("Failed to connect: " ++ e.message))

/-- Lists the tables of the job's destination. -/
def tables (o : Options) (inline : Option String) : Step m Unit := do
  let job ← readJob host o
  let config ← readConfig host o inline
  let (_, database) ← openDestination host job.target config
  host.print (.tables job.target.engine database.tableNames)

/-- Tells that a job makes sense; one that does not fails. -/
def validate (o : Options) : Step m Unit := do
  let job ← readJob host o
  host.print (.log ("Load job '" ++ job.name ++ "' is valid: " ++ job.target.engine.name ++
    " destination, table " ++ job.table ++ ", batch size " ++ toString job.maxBatchSize))

/-- Runs the command. The job is read first and the configuration then; validating a job reads no
configuration. -/
def run (o : Options) : m (Except LoadError Unit) :=
  ExceptT.run <| match o.command with
    | .load input format inline => load host o input format inline
    | .schema inline => schema host o inline
    | .check inline => check host o inline
    | .tables inline => tables host o inline
    | .validate => validate host o

end TableLoad.CommandLine
