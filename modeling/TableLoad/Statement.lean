import TableLoad.Dialect
import TableLoad.Keyed
import TableLoad.Value

namespace TableLoad

/-- Puts rows into some columns of a table. The values of all rows stand one row behind the
other, as the parameters of the statement do. -/
structure Insert where
  table : String
  columns : List String
  rows : Nat
  values : List Value
  dialect : Dialect
deriving DecidableEq, Repr

namespace Insert

/-- The parameters of one row in parentheses; the rows before it have used `row * width`. -/
def group (dialect : Dialect) (width row : Nat) : String :=
  "(" ++ ",".intercalate ((List.range width).map fun i => dialect.placeholder (row * width + i + 1))
    ++ ")"

/-- The statement for a number of rows. Numbered parameters run through all of it. -/
def template (table : String) (columns : List String) (rows : Nat) (dialect : Dialect) : String :=
  "INSERT INTO " ++ table ++ " (" ++ ",".intercalate columns ++ ") VALUES " ++
    ",".intercalate ((List.range rows).map (group dialect columns.length)) ++ ";"

def sql (s : Insert) : String :=
  template s.table s.columns s.rows s.dialect

/-- The first `rows` rows of a list of values, each `width` long. -/
def split (width : Nat) : (rows : Nat) → List Value → List (List Value)
  | 0, _ => []
  | rows + 1, values => values.take width :: split width rows (values.drop width)

/-- The values of each row. -/
def tuples (s : Insert) : List (List Value) :=
  split s.columns.length s.rows s.values

end Insert

/-- Removes the rows of a table in which every listed column has its listed value; all rows when
none is listed. -/
structure Delete where
  table : String
  filter : Keyed Value
  dialect : Dialect
deriving DecidableEq, Repr

namespace Delete

/-- The conditions in order of the columns, with their parameters. -/
def conditions (dialect : Dialect) : (index : Nat) → List String → List String
  | _, [] => []
  | index, c :: cs => (c ++ " = " ++ dialect.placeholder index) :: conditions dialect (index + 1) cs

def sql (s : Delete) : String :=
  let all := "DELETE FROM " ++ s.table
  match conditions s.dialect 1 s.filter.keys with
  | [] => all
  | cs => all ++ " WHERE " ++ " AND ".intercalate cs

def parameters (s : Delete) : List Value :=
  s.filter.entries.map (·.2)

end Delete

inductive Statement
  | insert (s : Insert)
  | delete (s : Delete)
deriving DecidableEq, Repr

namespace Statement

def sql : Statement → String
  | insert s => s.sql
  | delete s => s.sql

def parameters : Statement → List Value
  | insert s => s.values
  | delete s => s.parameters

end Statement

end TableLoad
