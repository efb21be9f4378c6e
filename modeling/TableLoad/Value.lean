import TableLoad.Json.Printer
import TableLoad.Text.Quoted

namespace TableLoad

/-- The value of a table cell or of a statement parameter. -/
inductive Value
  | null
  | bool (b : Bool)
  | int (i : Int)
  | float (x : Binary64)
  | text (s : String)
deriving DecidableEq, Repr, Inhabited

namespace Value

/-- A whole number that fits 64 signed bits. -/
def fitsInt (i : Int) : Bool :=
  -0x8000000000000000 ≤ i && i < 0x8000000000000000

/-- A whole number past 63 bits becomes the float nearest to it. -/
def ofNumber : Json.Number → Value
  | .int i => if fitsInt i then int i else float (.ofInt i)
  | .float x => float x

/-- Scalars map to themselves; arrays and objects become their compact text. -/
def ofJson : Json → Value
  | .null => null
  | .bool b => bool b
  | .number n => ofNumber n
  | .string s => text s
  | v => text v.compact

/-- The value of a scalar; arrays and objects have none. -/
def ofScalar? : Json → Option Value
  | .array _ | .object _ => none
  | v => some (ofJson v)

def toJson : Value → Json
  | null => .null
  | bool b => .bool b
  | int i => .number (.int i)
  | float x => if x.isFinite then .number (.float x) else .null
  | text s => .string s

/-- Floats are shown in full, without exponent and without a point where they are whole. -/
def floatLayout : NumberLayout :=
  ⟨none, ""⟩

/-- The value as a message shows it. -/
def display : Value → String
  | null => "NULL"
  | bool b => if b then "true" else "false"
  | int i => toString i
  | float x => floatLayout.text x
  | text s => Text.quoted s

end Value

end TableLoad
