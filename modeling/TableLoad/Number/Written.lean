import TableLoad.Number.Binary64

namespace TableLoad

/-- The number that decimal digits spell. -/
def digitsValue (ds : List Char) : Nat :=
  ds.foldl (fun n c => n * 10 + (c.toNat - '0'.toNat)) 0

/-- A text without its sign, and whether the sign is a minus. -/
def splitSign : List Char → Bool × List Char
  | '+' :: cs => (false, cs)
  | '-' :: cs => (true, cs)
  | cs => (false, cs)

namespace IntegerText

/-- Why a text is no integer. -/
inductive Fault
  | empty | invalidDigit | tooLarge | tooSmall
deriving DecidableEq, Repr

def Fault.message : Fault → String
  | empty => "cannot parse integer from empty string"
  | invalidDigit => "invalid digit found in string"
  | tooLarge => "number too large to fit in target type"
  | tooSmall => "number too small to fit in target type"

/-- A sign and ASCII digits. The digits are read from the left, so a number that has already left
its range is told before a wrong digit behind it. -/
def parse (s : String) : Except Fault Int :=
  match s.toList with
  | [] => .error .empty
  | cs =>
    let (negative, body) := splitSign cs
    let digits := body.takeWhile Char.isDigit
    let n := digitsValue digits
    if negative then
      if 0x8000000000000000 < n then .error .tooSmall
      else if digits.isEmpty || digits.length < body.length then .error .invalidDigit
      else .ok (-n)
    else if 0x8000000000000000 ≤ n then .error .tooLarge
    else if digits.isEmpty || digits.length < body.length then .error .invalidDigit
    else .ok n

end IntegerText

namespace FloatText

/-- Why a text is no float. -/
inductive Fault
  | empty | invalid
  /-- Digits that lie past the largest finite number. -/
  | outOfRange
deriving DecidableEq, Repr

def Fault.message : Fault → String
  | empty => "cannot parse float from empty string"
  | invalid => "invalid float literal"
  | outOfRange => "value out of range"

/-- The exponent that follows the digits; nothing means zero. -/
def exponent? : List Char → Option Int
  | [] => some 0
  | c :: cs =>
    if c = 'e' || c = 'E' then
      let (negative, digits) := splitSign cs
      if digits.isEmpty || !digits.all Char.isDigit then none
      else some (if negative then -digitsValue digits else digitsValue digits)
    else none

/-- Digits with a point among them or at either end and an exponent, as a whole number and a power
of ten. -/
def decimal? (cs : List Char) : Option (Nat × Int) := do
  let whole := cs.takeWhile Char.isDigit
  let behind := cs.dropWhile Char.isDigit
  let (fraction, rest) := match behind with
    | '.' :: more => (more.takeWhile Char.isDigit, more.dropWhile Char.isDigit)
    | _ => ([], behind)
  if whole.isEmpty && fraction.isEmpty then none
  else
    let e ← exponent? rest
    return (digitsValue (whole ++ fraction), e - fraction.length)

/-- The values that are spelled out, in letters of either case. -/
def spelled? (negative : Bool) (cs : List Char) : Option Binary64 :=
  let word := String.ofList (cs.map Char.toLower)
  if word = "nan" then some .nan
  else if word = "inf" || word = "infinity" then some (.infinity negative)
  else none

/-- A sign, and digits or one of the spelled values; digits past the largest finite number give an
infinity. -/
def read (s : String) : Except Fault Binary64 :=
  match s.toList with
  | [] => .error .empty
  | cs =>
    let (negative, body) := splitSign cs
    match spelled? negative body with
    | some x => .ok x
    | none =>
      match decimal? body with
      | none => .error .invalid
      | some (coefficient, exponent) => .ok (Binary64.ofDecimal negative coefficient exponent)

/-- Nothing but letters behind the signs, however many these are. -/
def isWord (s : String) : Bool :=
  (s.toList.dropWhile fun c => c == '+' || c == '-').all Char.isAlpha

/-- A float that is not finite only where it is spelled out. -/
def parse (s : String) : Except Fault Binary64 :=
  match read s with
  | .ok x => if x.isFinite || isWord s then .ok x else .error .outOfRange
  | .error f => .error f

end FloatText

end TableLoad
