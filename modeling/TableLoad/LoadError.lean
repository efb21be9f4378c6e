namespace TableLoad

/-- The moment at which a load found itself cancelled. -/
inductive CancelPoint
  | read | begin | delete | insert
deriving DecidableEq, Repr

def CancelPoint.name : CancelPoint → String
  | read => "read"
  | begin => "begin"
  | delete => "delete"
  | insert => "insert"

/-- What can go wrong in a load. -/
inductive LoadError
  | config (message : String)
  | missingConfigField (field : String)
  /-- The undefined variables of a template, in order. -/
  | undefinedVariable (names : String)
  | yamlParse (message : String)
  | jsonParse (message : String)
  | connection (message : String)
  | schemaQuery (table message : String)
  | schemaNotFound (schema table : String)
  | coercion (column message : String)
  | decode (line : Nat) (message : String)
  | columnsNotProvided
  /-- The buffer of a loader does not divide into rows. -/
  | misalignedBuffer (values columns : Nat)
  | loaderSpent
  | delete (message : String)
  | insertBatch (batch batches : Nat) (message : String)
  | transaction (message : String)
  | cancelled (point : String)
  | io (message : String)
  | fileNotFound (path : String)
  | other (message : String)
deriving DecidableEq, Repr

namespace LoadError

def message : LoadError → String
  | config m => "Configuration error: " ++ m
  | missingConfigField f => "Missing required config field: " ++ f
  | undefinedVariable names => "Undefined template variable: " ++ names
  | yamlParse m => "Failed to parse YAML: " ++ m
  | jsonParse m => "Failed to parse JSON: " ++ m
  | connection m => "Connection error: " ++ m
  | schemaQuery table m => "Schema query for '" ++ table ++ "' failed: " ++ m
  | schemaNotFound schema table => "Schema not found or empty: " ++ schema ++ "." ++ table
  | coercion column m => "Cannot coerce value for column '" ++ column ++ "': " ++ m
  | decode line m => s!"Failed to decode record at line {line}: {m}"
  | columnsNotProvided => "Columns not provided"
  | misalignedBuffer values columns =>
    s!"Row buffer of {values} values is not a multiple of {columns} columns"
  | loaderSpent => "Batch loader already committed; create a new loader for the next load"
  | delete m => "Delete statement failed: " ++ m
  | insertBatch batch batches m => s!"Insert batch {batch}/{batches} failed: {m}"
  | transaction m => "Transaction error: " ++ m
  | cancelled point => "Load cancelled during " ++ point
  | io m => "IO error: " ++ m
  | fileNotFound path => "File not found: " ++ path
  | other m => m

/-- The phase of a load in which the error arises. -/
def phase : LoadError → String
  | config _ | missingConfigField _ | undefinedVariable _ | yamlParse _ | jsonParse _ => "config"
  | connection _ => "connection"
  | schemaQuery .. | schemaNotFound .. => "schema"
  | coercion .. => "coercion"
  | decode .. => "decode"
  | columnsNotProvided | misalignedBuffer .. | loaderSpent => "batch"
  | delete _ => "delete"
  | insertBatch .. => "insert"
  | transaction _ => "transaction"
  | cancelled _ => "cancelled"
  | io _ | fileNotFound _ => "io"
  | other _ => "other"

/-- The error concerns one record alone; the load may go on without it. -/
def isDataError : LoadError → Bool
  | coercion .. | decode .. => true
  | _ => false

end LoadError

end TableLoad
