namespace TableLoad

inductive Dialect
  | postgres | mysql | sqlite | duckdb
deriving DecidableEq, Repr

namespace Dialect

def all : List Dialect :=
  [postgres, mysql, sqlite, duckdb]

def name : Dialect → String
  | postgres => "postgres"
  | mysql => "mysql"
  | sqlite => "sqlite"
  | duckdb => "duckdb"

def ofName? (s : String) : Option Dialect :=
  all.find? (·.name == s)

/-- Parameters carry their number. -/
def isOrdinal (d : Dialect) : Bool :=
  d == postgres

/-- The parameter with a number, counted from one. -/
def placeholder (d : Dialect) (index : Nat) : String :=
  if d.isOrdinal then "$" ++ toString index else "?"

def defaultSchema (d : Dialect) : String :=
  if d == postgres then "public" else "main"

theorem ofName?_name (d : Dialect) : ofName? d.name = some d := by
  cases d <;> decide

end Dialect

end TableLoad
