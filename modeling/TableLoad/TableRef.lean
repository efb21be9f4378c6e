import TableLoad.LoadError
import TableLoad.Text.Blank

namespace TableLoad

/-- A table, perhaps with its schema and the catalog of an attached database. -/
structure TableRef where
  /-- The attached database that the table lives in. -/
  catalog : Option String
  schema : String
  table : String
deriving DecidableEq, Repr

namespace TableRef

/-- Reads `table`, `schema.table` or `catalog.schema.table`; blanks around a part do not count,
and no part is blank. A bare table lies in the default schema. -/
def parse (identifier defaultSchema : String) : Except LoadError TableRef :=
  let parts := (Text.splitOnChar '.' (Text.trimChars identifier.toList)).map fun part =>
    String.ofList (Text.trimChars part)
  let invalid := .error (.config ("Invalid table identifier: '" ++ identifier ++ "'"))
  if parts.any String.isEmpty then invalid
  else match parts with
    | [table] => .ok ⟨none, defaultSchema, table⟩
    | [schema, table] => .ok ⟨none, schema, table⟩
    | [catalog, schema, table] => .ok ⟨some catalog, schema, table⟩
    | _ => invalid

def inCatalog (t : TableRef) (catalog : String) : TableRef :=
  { t with catalog := some catalog }

/-- The name that statements use. -/
def qualified (t : TableRef) : String :=
  match t.catalog with
  | some catalog => catalog ++ "." ++ t.schema ++ "." ++ t.table
  | none => t.schema ++ "." ++ t.table

end TableRef

end TableLoad
