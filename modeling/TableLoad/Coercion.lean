import TableLoad.Column.Basic
import TableLoad.LoadError
import TableLoad.Number.Written
import TableLoad.Value

namespace TableLoad

/-- Why a value does not fit a column. -/
inductive Misfit
  | notInteger (text : String) (fault : IntegerText.Fault)
  | notFloat (text : String) (fault : FloatText.Fault)
  | integerRange (i : Int)
  | fraction (x : Binary64)
  | numberRange (x : Binary64)
deriving DecidableEq, Repr

def Misfit.message : Misfit → String
  | notInteger s f => "cannot parse " ++ Text.quoted s ++ " as integer: " ++ f.message
  | notFloat s f => "cannot parse " ++ Text.quoted s ++ " as float: " ++ f.message
  | integerRange i => s!"integer {i} is out of range"
  | fraction x =>
    "cannot convert number " ++ Value.floatLayout.text x ++ " to integer: fractional value present"
  | numberRange x => "number " ++ Value.floatLayout.text x ++ " is out of integer range"

/-- The integer of 64 signed bits that a float is, if none of it is lost. The largest of them is no
float; `2 ^ 63` is the first one outside their range. -/
def narrow? (x : Binary64) : Option Int :=
  if x.isFinite && (Binary64.ofInt (-0x8000000000000000)).atMost x &&
      x.lessThan (.ofInt 0x8000000000000000) then
    some x.truncate
  else none

/-- The integer that a number is exactly. -/
def integerOf : Json.Number → Except Misfit Int
  | .int i => if Value.fitsInt i then .ok i else .error (.integerRange i)
  | .float x =>
    if x.hasFraction then .error (.fraction x)
    else match narrow? x with
      | some i => .ok i
      | none => .error (.numberRange x)

/-- The value in a column of a type: text is read as a number where the column holds numbers,
numbers narrow to integers only exactly, and everything else stays what it is. -/
def convert (t : LogicalType) (v : Json) : Except Misfit Value :=
  match t, v with
  | .int, .string s =>
    match IntegerText.parse s with
    | .ok i => .ok (.int i)
    | .error f => .error (.notInteger s f)
  | .float, .string s =>
    match FloatText.parse s with
    | .ok x => .ok (.float x)
    | .error f => .error (.notFloat s f)
  | .int, .number n => (integerOf n).map .int
  | _, v => .ok (.ofJson v)

namespace Column

/-- The value in this column. -/
def coerce (c : Column) (v : Json) : Except LoadError Value :=
  match convert c.logicalType v with
  | .ok x => .ok x
  | .error m => .error (.coercion c.name m.message)

/-- What the column holds in a row whose record does not fill it: null where it may, and else the
zero of its type. Opaque columns have no zero. -/
def fill (c : Column) : Value :=
  if c.nullable then .null
  else match c.logicalType with
    | .string => .text ""
    | .int => .int 0
    | .float => .float (.zero false)
    | .other => .null

end Column

end TableLoad
