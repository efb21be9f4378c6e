import TableLoad.Document
import TableLoad.Text.Blank

namespace TableLoad

/-- Where one key goes. -/
inductive FieldTarget
  | column (name : String)
  /-- The key is never loaded. -/
  | discard
deriving DecidableEq, Repr

namespace FieldTarget

/-- A hyphen alone discards; every other text names a column, blanks included. -/
def ofText (s : String) : FieldTarget :=
  if Text.trim s = "-" then discard else column s

def text : FieldTarget → String
  | column name => name
  | discard => "-"

end FieldTarget

/-- Targets of keys. A key that has none loads into the column of its own name. -/
abbrev FieldMap := Keyed FieldTarget

namespace FieldMap

def ofDocument? (d : Document) : Option FieldMap :=
  d.keyed? fun v => v.text?.map FieldTarget.ofText

def toJson (m : FieldMap) : Json :=
  .object (m.map fun _ t => Json.string t.text).entries

end FieldMap

end TableLoad
