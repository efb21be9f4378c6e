import TableLoad.Dialect
import TableLoad.TableRef
import TableLoad.Template

namespace TableLoad

inductive Engine
  | postgres | mysql | sqlite | duckdb
deriving DecidableEq, Repr

namespace Engine

def all : List Engine :=
  [postgres, mysql, sqlite, duckdb]

def name : Engine → String
  | postgres => "postgres"
  | mysql => "mysql"
  | sqlite => "sqlite"
  | duckdb => "duckdb"

def ofName? (s : String) : Option Engine :=
  all.find? (·.name == s)

/-- The dialect that the engine speaks itself. -/
def dialect : Engine → Dialect
  | postgres => .postgres
  | mysql => .mysql
  | sqlite => .sqlite
  | duckdb => .duckdb

/-- The engine is reached over a network. -/
def isServer (e : Engine) : Bool :=
  e == postgres || e == mysql

end Engine

/-- A destination as a job describes it. -/
structure Target where
  engine : Engine
  /-- A URL, key and value pairs, or the path of a file; may hold template variables. -/
  connection : String
  /-- The schema of bare table names, in place of the engine's. -/
  schema : Option String
deriving DecidableEq, Repr

def Target.defaultSchema (t : Target) : String :=
  t.schema.getD t.engine.dialect.defaultSchema

namespace Destination

/-- What stands before the last `@`, and what stands from it on. -/
def splitAtSign? : List Char → Option (List Char × List Char)
  | [] => none
  | c :: cs =>
    match splitAtSign? cs with
    | some (head, tail) => some (c :: head, tail)
    | none => if c = '@' then some ([], c :: cs) else none

/-- What stands up to the end of the first `://`, and what stands behind it. -/
def splitScheme? : List Char → Option (List Char × List Char)
  | [] => none
  | c :: cs =>
    if [':', '/', '/'].isPrefixOf (c :: cs) then some ((c :: cs).take 3, (c :: cs).drop 3)
    else (splitScheme? cs).map fun (scheme, rest) => (c :: scheme, rest)

/-- A connection string with the text between the first colon of its user part and its last `@`
left out. The user part follows the scheme, if there is one. -/
def maskChars (cs : List Char) : List Char :=
  match splitAtSign? cs with
  | none => cs
  | some (head, tail) =>
    let (scheme, rest) := (splitScheme? head).getD ([], head)
    if rest.contains ':' then
      scheme ++ rest.takeWhile (· != ':') ++ [':', '*', '*', '*', '*'] ++ tail
    else cs

def maskPassword (connection : String) : String :=
  String.ofList (maskChars connection.toList)

end Destination

/-- A destination that can be opened: its connection string has no variables left. -/
structure Destination where
  engine : Engine
  connection : String
  schema : String
deriving DecidableEq, Repr

namespace Destination

/-- The destination of a job. A variable without a value fails whatever the engine is. -/
def ofTarget (t : Target) (ctx : Template.Context) : Except LoadError Destination :=
  (Template.render ctx t.connection).map fun connection => ⟨t.engine, connection, t.defaultSchema⟩

/-- A database that lives in memory alone. -/
def inMemory : Destination :=
  ⟨.duckdb, ":memory:", Dialect.duckdb.defaultSchema⟩

/-- The path of the database file; none for a database in memory. -/
def path? (d : Destination) : Option String :=
  if d.connection.isEmpty || d.connection == ":memory:" then none else some d.connection

/-- What may be shown of the connection: only what `maskPassword` leaves of its connection string.
-/
def info (d : Destination) : String :=
  maskPassword d.connection

/-- The name under which every engine but the native one is attached. -/
def attachedCatalog : String := "target_db"

/-- The table that an identifier names here. -/
def resolve (d : Destination) (identifier : String) : Except LoadError TableRef :=
  (TableRef.parse identifier d.schema).map fun t =>
    if d.engine != .duckdb && t.catalog.isNone then t.inCatalog attachedCatalog else t

end Destination

end TableLoad
