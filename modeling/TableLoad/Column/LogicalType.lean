import TableLoad.Text.Blank

namespace TableLoad

/-- The coarse type of a column. -/
inductive LogicalType
  | string | int | float
  /-- Values of such a column are never changed. -/
  | other
deriving DecidableEq, Repr

namespace LogicalType

def all : List LogicalType :=
  [string, int, float, other]

def name : LogicalType → String
  | string => "string"
  | int => "int"
  | float => "float"
  | other => "other"

def ofName? (s : String) : Option LogicalType :=
  all.find? (·.name == s)

/-- The first type of which some mark stands in the declaration, whatever its case. -/
def ofDeclared (declared : String) : LogicalType :=
  let s := Text.asciiLower declared
  let hasAny (marks : List String) := marks.any (Text.contains · s)
  if hasAny ["char", "text"] then string
  else if hasAny ["int", "serial"] then int
  else if hasAny ["numeric", "dec", "double", "real", "fixed", "float"] then float
  else other

theorem ofName?_name (t : LogicalType) : ofName? t.name = some t := by
  cases t <;> decide

end LogicalType

end TableLoad
