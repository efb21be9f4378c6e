import TableLoad.Coercion
import TableLoad.Column.ColumnSet
import TableLoad.FieldMap

namespace TableLoad

/-- Why a key is not loaded. -/
inductive IgnoreReason
  | notInCatalog
  | discarded
  | databaseDefault
deriving DecidableEq, Repr

namespace IgnoreReason

def name : IgnoreReason → String
  | notInCatalog => "not_in_catalog"
  | discarded => "discarded"
  | databaseDefault => "database_default"

def message : IgnoreReason → String
  | notInCatalog => "not in catalog"
  | discarded => "discarded by mapping"
  | databaseDefault => "filled by database default"

end IgnoreReason

/-- What a key stands for in a table. -/
inductive Resolution
  | ignored (reason : IgnoreReason)
  | column (c : Column)
deriving DecidableEq, Repr

/-- A key goes where the mapping sends it, or to the column of its own name. -/
def resolve (catalog : ColumnSet) (mapping : FieldMap) (key : String) : Resolution :=
  let find (target : String) : Resolution :=
    match catalog.find? target with
    | none => .ignored .notInCatalog
    | some c => if c.hasExpressionDefault then .ignored .databaseDefault else .column c
  match mapping.find? key with
  | some .discard => .ignored .discarded
  | some (.column name) => find name
  | none => find key

abbrev Row := List Value

/-- Records reconciled into rows of one width. Columns are discovered as keys first appear; when a
record brings new ones, the rows before it are filled up. -/
structure Dataset where
  /-- All columns of the table. -/
  catalog : ColumnSet
  mapping : FieldMap
  /-- The columns that some key led to, in row order. -/
  columns : ColumnSet
  /-- The place among `columns` that a key leads to. -/
  bindings : Keyed Nat
  ignored : Keyed IgnoreReason
  rows : Array Row

namespace Dataset

def new (catalog : ColumnSet) (mapping : FieldMap) : Dataset :=
  ⟨catalog, mapping, .empty, .empty, .empty, #[]⟩

/-- The key was met before. -/
def knows (d : Dataset) (key : String) : Bool :=
  (d.bindings.find? key).isSome || (d.ignored.find? key).isSome

/-- Finds out where a new key leads. A second key for a column shares its place; a column is
appended at the first key that leads to it. -/
def learn (d : Dataset) (key : String) : Except LoadError Unit × Dataset :=
  match resolve d.catalog d.mapping key with
  | .ignored reason => (.ok (), { d with ignored := d.ignored.insert key reason })
  | .column c =>
    match d.columns.indexOf? c.name with
    | some i => (.ok (), { d with bindings := d.bindings.insert key i })
    | none =>
      let d := { d with bindings := d.bindings.insert key d.columns.size }
      match d.columns.push { c with sourceKey := key } with
      | .ok columns => (.ok (), { d with columns := columns })
      | .error e => (.error e, d)

/-- Finds out where the keys lead that were not met before, up to the first failure. -/
def learnAll (d : Dataset) : List String → Except LoadError Unit × Dataset
  | [] => (.ok (), d)
  | key :: keys =>
    if d.knows key then d.learnAll keys
    else match d.learn key with
      | (.ok (), d) => d.learnAll keys
      | (.error e, d) => (.error e, d)

/-- A row filled up to the width of the columns. -/
def padded (columns : ColumnSet) (row : Row) : Row :=
  row ++ (columns.columns.drop row.length).map Column.fill

/-- Takes the keys of a record in: new columns, and the rows so far filled up for them. -/
def discover (d : Dataset) (record : Record) : Except LoadError Unit × Dataset :=
  match d.learnAll record.keys with
  | (.ok (), learned) =>
    if d.columns.size < learned.columns.size then
      (.ok (), { learned with rows := learned.rows.map (padded learned.columns) })
    else (.ok (), learned)
  | (.error e, learned) => (.error e, learned)

/-- Puts the value under one key into its place; of two keys for one place the later one stays. -/
def place (d : Dataset) (row : Row) (entry : String × Json) : Except LoadError Row :=
  match d.bindings.find? entry.1 with
  | none => .ok row
  | some i =>
    match d.columns.at? i with
    | none => .ok row
    | some c => (c.coerce entry.2).map (row.set i)

/-- The row of a record: its coerced values, and fill values where it has none. -/
def rowOf (d : Dataset) (record : Record) : Except LoadError Row :=
  record.entries.foldlM d.place (d.columns.columns.map Column.fill)

/-- Takes a record in. One whose values do not fit leaves no row, but its columns stay. -/
def add (d : Dataset) (record : Record) : Except LoadError Unit × Dataset :=
  match d.discover record with
  | (.error e, d) => (.error e, d)
  | (.ok (), d) =>
    match d.rowOf record with
    | .ok row => (.ok (), { d with rows := d.rows.push row })
    | .error e => (.error e, d)

/-- Takes any value in that is an object. -/
def addValue (d : Dataset) (v : Json) : Except LoadError Unit × Dataset :=
  match v.record? with
  | some record => d.add record
  | none => (.error (.other ("Typed record must serialize to an object, got " ++ v.kind)), d)

/-- The column that a key leads to. -/
def columnOf? (d : Dataset) (key : String) : Option Column := do
  d.columns.at? (← d.bindings.find? key)

def isEmpty (d : Dataset) : Bool :=
  d.rows.isEmpty

/-- All values, row by row. -/
def values (d : Dataset) : List Value :=
  d.rows.toList.flatten

end Dataset

end TableLoad
