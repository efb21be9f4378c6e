import TableLoad.Column.ColumnSet
import TableLoad.Database.Cast
import TableLoad.Statement
import TableLoad.TableRef

namespace TableLoad

namespace Database

structure TableColumn where
  name : String
  declaredType : String
  notNull : Bool
  primaryKey : Bool
  /-- The default expression as the table was declared with it. -/
  default : Option String
deriving DecidableEq, Repr

structure Table where
  schema : String
  name : String
  columns : List TableColumn
  rows : List (List Value)
deriving DecidableEq, Repr

/-- The two whole numbers that a default adds. -/
def sumOperands? (default : String) : Option (Int × Int) :=
  match (Text.splitOnChar '+' default.toList).map fun s => Text.trim (String.ofList s) with
  | [a, b] => do
    return (← (IntegerText.parse a).toOption, ← (IntegerText.parse b).toOption)
  | _ => none

/-- What stands between single quotes, every inner quote written twice. -/
def unquote? : List Char → Option (List Char)
  | [] => none
  | ['\''] => some []
  | '\'' :: '\'' :: cs => (unquote? cs).map ('\'' :: ·)
  | '\'' :: _ :: _ => none
  | c :: cs => (unquote? cs).map (c :: ·)

/-- The value of a default expression: a sum or a literal. -/
def defaultValue? (default : String) : Option Value :=
  match sumOperands? default with
  | some (a, b) => some (.int (a + b))
  | none =>
    match Text.asciiLower default with
    | "null" => some .null
    | "true" => some (.bool true)
    | "false" => some (.bool false)
    | _ =>
      match default.toList with
      | '\'' :: cs => (unquote? cs).map fun cs => .text (String.ofList cs)
      | _ =>
        match IntegerText.parse default, FloatText.parse default with
        | .ok i, _ => some (.int i)
        | _, .ok x => some (.float x)
        | _, _ => none

namespace TableColumn

def storage (c : TableColumn) : StorageType :=
  .ofDeclared c.declaredType

/-- The column as the catalog lists it. A sum stands in parentheses there. -/
def toColumn (c : TableColumn) : Column :=
  .declared c.name c.declaredType (!(c.notNull || c.primaryKey)) <| c.default.map fun d =>
    match sumOperands? d with
    | some (a, b) => s!"({a} + {b})"
    | none => d

/-- What the column holds in a row that does not name it. -/
def unnamedValue (c : TableColumn) : Except String Value :=
  match c.default with
  | none => .ok .null
  | some d =>
    match defaultValue? d with
    | some v => c.storage.cast v
    | none => .error ("Could not evaluate " ++ d)

end TableColumn

namespace Table

/-- The place of a column, whatever the case of its name. -/
def indexOf? (t : Table) (column : String) : Option Nat :=
  t.columns.findIdx? fun c => Text.eqIgnoreAsciiCase c.name column

/-- The places of several columns, each once. -/
def indicesOf (t : Table) (columns : List String) : Except String (List Nat) := do
  let indices ← columns.mapM fun c =>
    match t.indexOf? c with
    | some i => .ok i
    | none => .error ("Unknown column " ++ c)
  if indices.Nodup then return indices else .error "A column is named twice"

/-- A full row for the values of some columns. -/
def completeRow (t : Table) (indices : List Nat) (values : List Value) :
    Except String (List Value) :=
  t.columns.zipIdx.mapM fun (c, i) =>
    match indices.idxOf? i with
    | some j => c.storage.cast (values.getD j .null)
    | none => c.unnamedValue

/-- A row that the table can take beside the rows it has. -/
def admits (t : Table) (row : List Value) : Except String Unit :=
  (t.columns.zip row).zipIdx.forM fun ((c, v), i) =>
    if (c.notNull || c.primaryKey) && v == .null then
      .error ("Constraint violated: null in column " ++ c.name)
    else if c.primaryKey && t.rows.any fun r => equalStored (r.getD i .null) v then
      .error ("Constraint violated: a key twice in column " ++ c.name)
    else .ok ()

/-- Puts one row in, behind the others. -/
def insertRow (t : Table) (indices : List Nat) (values : List Value) : Except String Table := do
  if values.length ≠ indices.length then .error "A row has values for other columns"
  else
    let row ← t.completeRow indices values
    t.admits row
    return { t with rows := t.rows ++ [row] }

/-- Puts rows in one by one. -/
def insert (t : Table) (columns : List String) (tuples : List (List Value)) :
    Except String Table := do
  let indices ← t.indicesOf columns
  tuples.foldlM (fun t values => t.insertRow indices values) t

/-- The conditions of a delete: places and the values to compare with, as the columns store
them. -/
def conditions (t : Table) (filter : List (String × Value)) : Except String (List (Nat × Value)) :=
  filter.mapM fun (column, v) =>
    match t.indexOf? column, t.columns.find? fun c => Text.eqIgnoreAsciiCase c.name column with
    | some i, some c => (c.storage.cast v).map (i, ·)
    | _, _ => .error ("Unknown column " ++ column)

/-- A row that meets every condition. -/
def meets (conditions : List (Nat × Value)) (row : List Value) : Bool :=
  conditions.all fun (i, v) => equalStored (row.getD i .null) v

/-- Removes the rows that meet every condition. -/
def delete (t : Table) (filter : List (String × Value)) : Except String Table := do
  let conditions ← t.conditions filter
  return { t with rows := t.rows.filter fun row => !meets conditions row }

end Table

end Database

/-- A database: its tables in the order in which they were made. -/
structure Database where
  tables : List Database.Table
deriving DecidableEq, Repr

namespace Database

def empty : Database :=
  ⟨[]⟩

/-- The table that a statement names, with or without its schema and whatever the case. -/
def indexOf? (d : Database) (name : String) : Option Nat :=
  match (Text.splitOnChar '.' name.toList).map String.ofList with
  | [table] => find "main" table
  | [schema, table] => find schema table
  | _ => none
where
  find (schema table : String) : Option Nat :=
    d.tables.findIdx? fun t =>
      Text.eqIgnoreAsciiCase t.schema schema && Text.eqIgnoreAsciiCase t.name table

/-- Changes one table; gives what the change gives beside it. -/
def change (d : Database) (name : String) (f : Table → Except String (Nat × Table)) :
    Except String (Nat × Database) :=
  match d.indexOf? name with
  | none => .error ("Unknown table " ++ name)
  | some i =>
    match d.tables[i]? with
    | none => .error ("Unknown table " ++ name)
    | some t => (f t).map fun (n, t) => (n, ⟨d.tables.set i t⟩)

/-- Runs a statement: how many rows it touched, and the database after it. -/
def execute (d : Database) : Statement → Except String (Nat × Database)
  | .insert s => d.change s.table fun t => (t.insert s.columns s.tuples).map (s.rows, ·)
  | .delete s => d.change s.table fun t =>
      (t.delete s.filter.entries).map fun t' => (t.rows.length - t'.rows.length, t')

/-- The columns of a table as the catalog lists them; the names must be exact. No table lives in
an attached database. -/
def columnsOf (d : Database) (t : TableRef) : Except LoadError ColumnSet :=
  let found := d.tables.find? fun u => u.schema == t.schema && u.name == t.table
  match t.catalog, found with
  | none, some u =>
    if u.columns.isEmpty then .error (.schemaNotFound t.schema t.table)
    else u.columns.foldlM (fun s c => s.push c.toColumn) ColumnSet.empty
  | _, _ => .error (.schemaNotFound t.schema t.table)

/-- Whether one table is listed before another: by schema, then by name. -/
def listedBefore (a b : Table) : Bool :=
  a.schema < b.schema || (a.schema == b.schema && a.name ≤ b.name)

/-- The names of all tables with their schemas, in order. -/
def tableNames (d : Database) : List String :=
  (d.tables.mergeSort listedBefore).map fun t => t.schema ++ "." ++ t.name

end Database

end TableLoad
