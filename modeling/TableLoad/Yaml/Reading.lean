import TableLoad.Document
import TableLoad.Number.Written
import TableLoad.Text.HexDigit

namespace TableLoad.Yaml

def isNullWord (s : String) : Bool :=
  s == "null" || s == "Null" || s == "NULL" || s == "~"

def flag? (s : String) : Option Bool :=
  if s == "true" || s == "True" || s == "TRUE" then some true
  else if s == "false" || s == "False" || s == "FALSE" then some false
  else none

/-- The number that digits spell to a base. -/
def natInBase? (base : Nat) : List Char → Option Nat
  | [] => none
  | cs => cs.foldlM (fun n c => do
      let d ← Text.hexDigitValue? c
      if d < base then some (n * base + d) else none) 0

/-- Digits behind a needless zero are text. -/
def hasNeedlessZero : List Char → Bool
  | '0' :: cs => !cs.isEmpty && cs.all Char.isDigit
  | _ => false

/-- A magnitude: decimal digits, or digits to another base behind its mark. -/
def magnitude? : List Char → Option Nat
  | '0' :: 'x' :: cs => natInBase? 16 cs
  | '0' :: 'o' :: cs => natInBase? 8 cs
  | '0' :: 'b' :: cs => natInBase? 2 cs
  | cs => if hasNeedlessZero cs then none else natInBase? 10 cs

/-- A whole number of any size. -/
def integer? (s : String) : Option Int :=
  match s.toList with
  | '-' :: cs => (magnitude? cs).map fun n => -(n : Int)
  | '+' :: cs => (magnitude? cs).map fun n => (n : Int)
  | cs => (magnitude? cs).map fun n => (n : Int)

/-- A number of 64 bits without a minus sign. -/
def count? (s : String) : Option Nat :=
  if s.startsWith "-" then none
  else (integer? s).bind fun i => if i < UInt64.size then some i.toNat else none

/-- A finite float. -/
def float? (s : String) : Option Binary64 :=
  let (sign, body) := splitSign s.toList
  if hasNeedlessZero body then none
  else do
    let (coefficient, exponent) ← FloatText.decimal? body
    let x := Binary64.ofDecimal sign coefficient exponent
    if x.isFinite then some x else none

/-- The values that are spelled out and have no JSON number. -/
def isInfinityOrNaN (s : String) : Bool :=
  [".inf", ".Inf", ".INF", "+.inf", "+.Inf", "+.INF", "-.inf", "-.Inf", "-.INF", ".nan", ".NaN",
    ".NAN"].contains s

/-- What a plain scalar is where nothing in particular is wanted. Whole numbers that fit 128 bits
but not 64 have no value; larger ones are floats. -/
def value? (s : String) : Option Json :=
  if s.isEmpty || isNullWord s then some .null
  else match flag? s, integer? s with
    | some b, _ => some (.bool b)
    | none, some i =>
      if -0x8000000000000000 ≤ i && i < UInt64.size then some (.number (.int i))
      else if -(UInt64.size * 0x8000000000000000) ≤ i && i < UInt64.size * UInt64.size then none
      else some (floatOrText s)
    | none, none => some (floatOrText s)
where
  floatOrText (s : String) : Json :=
    if isInfinityOrNaN s then .null
    else match float? s with
      | some x => .number (.float x)
      | none => .string s

/-- A scalar with everything that it can be read as. A quoted one is text. -/
def reading (text : String) (isPlain : Bool) : Scalar :=
  if isPlain then
    { text := some text
      count := count? text
      flag := flag? text
      null := text.isEmpty || isNullWord text
      blank := text.isEmpty
      value := value? text }
  else
    { text := some text, count := none, flag := none, null := false, blank := false
      value := some (.string text) }

end TableLoad.Yaml
