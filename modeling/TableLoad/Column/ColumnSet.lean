import TableLoad.Column.Basic
import TableLoad.LoadError

namespace TableLoad

/-- Columns in order, which is the order of the values in every row built for the set. `push` and
`ofList` keep names distinct; a set read from JSON is taken as it stands. -/
structure ColumnSet where
  columns : List Column
deriving DecidableEq, Repr, Inhabited

namespace ColumnSet

def empty : ColumnSet :=
  ⟨[]⟩

def size (s : ColumnSet) : Nat :=
  s.columns.length

def isEmpty (s : ColumnSet) : Bool :=
  s.columns.isEmpty

def names (s : ColumnSet) : List String :=
  s.columns.map Column.name

/-- The first column of exactly this name. -/
def get? (s : ColumnSet) (name : String) : Option Column :=
  s.columns.find? (·.name == name)

/-- The column of this name, or the first whose name differs only in the case of ASCII letters. -/
def find? (s : ColumnSet) (name : String) : Option Column :=
  s.get? name <|> s.columns.find? fun c => Text.eqIgnoreAsciiCase c.name name

def contains (s : ColumnSet) (name : String) : Bool :=
  (s.get? name).isSome

def at? (s : ColumnSet) (index : Nat) : Option Column :=
  s.columns[index]?

/-- The place of the first column of exactly this name. -/
def indexOf? (s : ColumnSet) (name : String) : Option Nat :=
  s.columns.findIdx? (·.name == name)

def append (s : ColumnSet) (c : Column) : ColumnSet :=
  ⟨s.columns ++ [c]⟩

/-- Appends a column unless one of its name is there. -/
def push (s : ColumnSet) (c : Column) : Except LoadError ColumnSet :=
  if s.contains c.name then .error (.other ("Duplicate column '" ++ c.name ++ "' in column set"))
  else .ok (s.append c)

/-- Of several columns of one name the first stays. -/
def ofList (cs : List Column) : ColumnSet :=
  cs.foldl (fun s c => if s.contains c.name then s else s.append c) empty

def toJson (s : ColumnSet) : Json :=
  .array (s.columns.map Column.toJson)

/-- The columns of a JSON array, whatever their names. -/
def ofDocument? (d : Document) : Option ColumnSet := do
  return ⟨← (← d.list?).mapM Column.ofDocument?⟩

end ColumnSet

end TableLoad
