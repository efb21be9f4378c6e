import TableLoad.Destination
import TableLoad.FieldMap
import TableLoad.Value

namespace TableLoad

/-- What to do with a record that fails alone. -/
inductive ErrorPolicy
  | abort | skip
deriving DecidableEq, Repr

namespace ErrorPolicy

def name : ErrorPolicy → String
  | abort => "abort"
  | skip => "skip"

def ofName? (s : String) : Option ErrorPolicy :=
  [abort, skip].find? (·.name == s)

end ErrorPolicy

/-- What to delete before the inserts. -/
structure DeleteRule where
  /-- The rows in which every column has its value. -/
  filter : Keyed Json
  /-- All rows. -/
  truncate : Bool
deriving Repr

namespace DeleteRule

/-- The values of the filter as parameters. -/
def filterValues (r : DeleteRule) : Keyed Value :=
  r.filter.map fun _ v => Value.ofJson v

/-- The conditions of the statement: none when all rows go. -/
def conditions (r : DeleteRule) : Keyed Value :=
  if r.truncate then .empty else r.filterValues

end DeleteRule

/-- What to load where, and how. -/
structure Job where
  name : String
  target : Target
  table : String
  maxBatchSize : Nat
  /-- The dialect of the statements, in place of the engine's. -/
  dialectOverride : Option Dialect
  mapping : FieldMap
  delete : Option DeleteRule
  onError : ErrorPolicy
deriving Repr

namespace Job

def dialect (j : Job) : Dialect :=
  j.dialectOverride.getD j.target.engine.dialect

def targetOfDocument? (d : Document) : Option Target := do
  match ← d.fields? [["engine"], ["connection_string", "database", "path"], ["schema"]] with
  | [some engine, some connection, schema] =>
    return {
      engine := ← Engine.ofName? (← engine.name?)
      connection := ← connection.text?
      schema := ← Document.optional Document.text? schema }
  | _ => none

def deleteOfDocument? (d : Document) : Option DeleteRule := do
  match ← d.fields? [["where"], ["truncate"]] with
  | [filter, truncate] =>
    return {
      filter := ← Document.orDefault .empty (Document.keyed? Document.toJson?) filter
      truncate := ← Document.orDefault false Document.flag? truncate }
  | _ => none

/-- The job that a document describes, whether it makes sense or not. -/
def ofDocument? (d : Document) : Option Job := do
  match ← d.fields? [["name"], ["destination"], ["table"], ["max_batch_size"], ["dialect"],
    ["mapping"], ["delete"], ["on_error"]] with
  | [some name, some target, some table, size, dialect, mapping, delete, onError] =>
    return {
      name := ← name.text?
      target := ← targetOfDocument? target
      table := ← table.text?
      maxBatchSize := ← Document.orDefault 200 Document.count? size
      dialectOverride := ← Document.optional (fun d => d.name?.bind Dialect.ofName?) dialect
      mapping := ← Document.orDefault .empty FieldMap.ofDocument? mapping
      delete := ← Document.optional deleteOfDocument? delete
      onError := ← Document.orDefault .abort (fun d => d.name?.bind ErrorPolicy.ofName?) onError }
  | _ => none

def require (holds : Bool) (e : LoadError) : Except LoadError Unit :=
  if holds then .ok () else .error e

def validateTarget (t : Target) : Except LoadError Unit := do
  require (!Text.isAllBlank t.connection) (.missingConfigField "destination.connection_string")
  require (!t.engine.isServer || t.connection.contains '=' || t.connection.contains '/')
    (.config ("Destination engine '" ++ t.engine.name ++
      "' needs a connection URL or key=value string, got '" ++ t.connection ++ "'"))
  require (!t.schema.any Text.isAllBlank) (.config "destination.schema cannot be empty")

def validateField (key : String) (target : FieldTarget) : Except LoadError Unit := do
  require (!key.isEmpty) (.config "Mapping keys cannot be empty")
  match target with
  | .discard => return
  | .column name =>
    require (!Text.isAllBlank name)
      (.config ("Mapping for '" ++ key ++ "' has an empty column name; use \"-\" to discard"))

/-- A delete says which rows go, in exactly one of the two ways, and compares scalars only. -/
def validateDelete (r : DeleteRule) : Except LoadError Unit := do
  require (!r.truncate || r.filter.isEmpty)
    (.config "delete cannot set both 'where' and 'truncate'")
  require (r.truncate || !r.filter.isEmpty)
    (.config "delete needs a non-empty 'where' or 'truncate: true'")
  r.filter.entries.forM fun (column, v) =>
    require v.isScalar (.config ("delete filter for '" ++ column ++ "' must be a scalar value"))

/-- Whether a job makes sense; the first thing that does not is the answer. -/
def validate (j : Job) : Except LoadError Unit := do
  require (!Text.isAllBlank j.name) (.config "Job name cannot be empty")
  require (!Text.isAllBlank j.table) (.missingConfigField "table")
  validateTarget j.target
  j.mapping.entries.forM fun (key, target) => validateField key target
  match j.delete with
  | none => return
  | some r => validateDelete r

/-- The job with the answer of `validate`. -/
def validated (j : Job) : Except LoadError Job :=
  j.validate.map fun _ => j

end Job

end TableLoad
