import TableLoad.Number.Written
import TableLoad.Text.Blank
import TableLoad.Value

namespace TableLoad.Database

/-- What a column stores. -/
inductive StorageType
  | integer (bits : Nat)
  | double
  | text
  | boolean
  /-- Values are stored as they come. -/
  | other
deriving DecidableEq, Repr

def StorageType.ofDeclared (declared : String) : StorageType :=
  match Text.asciiLower declared with
  | "tinyint" => integer 8
  | "smallint" => integer 16
  | "integer" | "int" => integer 32
  | "bigint" => integer 64
  | "double" | "float" | "real" => double
  | "varchar" | "text" => text
  | "boolean" => boolean
  | _ => other

/-- A whole number in the range of signed integers of some bits. -/
def fitsBits (bits : Nat) (i : Int) : Bool :=
  let bound : Nat := 1 <<< (bits - 1)
  i < bound && -(bound : Int) ≤ i

/-- The whole number nearest to a finite float. -/
def nearestInt? : Binary64 → Option Int
  | .finite negative code _ =>
    let n : Int := (Binary64.roundDiv (Binary64.units code) Binary64.unitsOfOne : Nat)
    some (if negative then -n else n)
  | _ => none

/-- The whole number nearest to `coefficient * 10 ^ exponent`; a half goes away from zero. -/
def nearestOfDecimal (coefficient : Nat) (exponent : Int) : Nat :=
  if 0 ≤ exponent then coefficient * Nat.pow 10 exponent.toNat
  else
    let unit := Nat.pow 10 (-exponent).toNat
    (2 * coefficient + unit) / (2 * unit)

/-- The whole number nearest to the one that a text spells. No power of ten past the four hundredth
is worked out: with it a number is zero or in the range of no type. -/
def textInt? (s : String) : Option Int := do
  let (negative, body) := splitSign (Text.trim s).toList
  let (coefficient, exponent) ← FloatText.decimal? body
  if exponent.natAbs ≤ 400 then
    let n : Int := nearestOfDecimal coefficient exponent
    return if negative then -n else n
  else if coefficient = 0 || exponent < 0 then return 0
  else none

/-- The whole number that a value stands for. -/
def asInt? : Value → Option Int
  | .int i => some i
  | .bool b => some (if b then 1 else 0)
  | .float x => nearestInt? x
  | .text s => textInt? s
  | .null => none

def asFloat? : Value → Option Binary64
  | .int i => some (.ofInt i)
  | .bool b => some (.ofInt (if b then 1 else 0))
  | .float x => some x
  | .text s => (FloatText.parse (Text.trim s)).toOption
  | .null => none

def asText? : Value → Option String
  | .int i => some (toString i)
  | .bool b => some (if b then "true" else "false")
  | .float x => some (Json.numberLayout.text x)
  | .text s => some s
  | .null => none

def asBool? : Value → Option Bool
  | .bool b => some b
  | .int i => some (i != 0)
  | .float x => some (!x.equalValue (.zero false))
  | .text s =>
    match Text.asciiLower s with
    | "true" => some true
    | "false" => some false
    | _ => none
  | .null => none

/-- The value as the type stores it; null is null in every type. -/
def StorageType.cast (t : StorageType) (v : Value) : Except String Value :=
  let as (w : Option Value) : Except String Value :=
    match w with
    | some w => .ok w
    | none => .error ("Could not convert " ++ v.display)
  match v, t with
  | .null, _ => .ok .null
  | v, integer bits => as (((asInt? v).filter (fitsBits bits)).map .int)
  | v, double => as ((asFloat? v).map .float)
  | v, text => as ((asText? v).map .text)
  | v, boolean => as ((asBool? v).map .bool)
  | v, other => .ok v

/-- Equality of stored values. Null equals nothing, and zeros of both signs are equal. -/
def equalStored : Value → Value → Bool
  | .null, _ | _, .null => false
  | .float x, .float y => x == y || x.equalValue y
  | v, w => v == w

end TableLoad.Database
