import TableLoad.Number.Binary64

namespace TableLoad

/-- A decimal magnitude: `digits * 10 ^ exponent`. -/
structure Decimal where
  digits : Nat
  exponent : Int
deriving DecidableEq, Repr

namespace Binary64

/-- How many decimal digits a number has. -/
def decimalLength (n : Nat) : Nat :=
  (Nat.toDigits 10 n).length

/-- The position of the first decimal digit of a magnitude: one more than the exponent that
scientific notation would show. -/
def decimalPoint (code : Nat) : Int :=
  decimalLength (units code * Nat.pow 10 342 / unitsOfOne) - 342

/-- Of the two multiples of `10 ^ exponent` around a magnitude the one that reads back to it; of
two the nearer, and of two as near the even one. Lengths are counted in halves of a unit, and the
ends of the interval that reads back belong to it when the magnitude's code is even. -/
def multipleReadingBack? (code : Nat) (exponent : Int) : Option Nat :=
  let grid := Nat.pow 10 exponent.toNat * (2 * unitsOfOne)
  let scale := Nat.pow 10 (-exponent).toNat
  let low := (units code + units (code - 1)) * scale
  let here := 2 * units code * scale
  let high := (units code + units (code + 1)) * scale
  let readsBack (d : Nat) : Bool :=
    let x := d * grid
    (low < x && x < high) || (code % 2 == 0 && (x == low || x == high))
  let below := here / grid
  let down := here - below * grid
  let up := (below + 1) * grid - here
  match readsBack below, readsBack (below + 1) with
  | true, true =>
    if down < up || (down == up && below % 2 == 0) then some below else some (below + 1)
  | true, false => some below
  | false, true => some (below + 1)
  | false, false => none

/-- The fewest digits that read back to a magnitude. Seventeen always do. -/
def shortest (code : Nat) : Decimal :=
  let point := decimalPoint code
  let found := (List.range 17).findSome? fun (i : Nat) =>
    let exponent : Int := point - (i + 1)
    (multipleReadingBack? code exponent).map fun d => Decimal.mk d exponent
  found.getD ⟨0, 0⟩

end Binary64

/-- How the digits of a number are set down. -/
structure NumberLayout where
  /-- Between these positions of the decimal point a number is written without an exponent;
  with none at every position. -/
  positional : Option (Int × Int)
  /-- What follows the digits of a whole number. -/
  wholeEnd : String

namespace NumberLayout

/-- The digits without the zeros at their end. -/
def significant (n : Nat) : List Char :=
  ((Nat.toDigits 10 n).reverse.dropWhile (· = '0')).reverse

/-- The digits with a point, or with zeros up to it. -/
def positionalText (l : NumberLayout) (ds : List Char) (point : Int) : List Char :=
  if point ≤ 0 then '0' :: '.' :: List.replicate (-point).toNat '0' ++ ds
  else if ds.length ≤ point.toNat then
    ds ++ List.replicate (point.toNat - ds.length) '0' ++ l.wholeEnd.toList
  else ds.take point.toNat ++ '.' :: ds.drop point.toNat

/-- One digit before the point, and the exponent with its sign. -/
def scientificText (ds : List Char) (point : Int) : List Char :=
  let e := point - 1
  let mantissa := match ds with
    | [d] => [d]
    | d :: rest => d :: '.' :: rest
    | [] => []
  mantissa ++ 'e' :: (if e < 0 then '-' else '+') :: Nat.toDigits 10 e.natAbs

/-- A finite magnitude in this layout. -/
def magnitude (l : NumberLayout) (code : Nat) : List Char :=
  if code = 0 then '0' :: l.wholeEnd.toList
  else
    let d := Binary64.shortest code
    let ds := significant d.digits
    let point : Int := (Binary64.decimalLength d.digits : Int) + d.exponent
    match l.positional with
    | some (low, high) =>
      if low ≤ point && point ≤ high then l.positionalText ds point else scientificText ds point
    | none => l.positionalText ds point

/-- A number in this layout. -/
def text (l : NumberLayout) : Binary64 → String
  | .nan => "NaN"
  | .infinity negative => if negative then "-inf" else "inf"
  | .finite negative code _ =>
    String.ofList ((if negative then ['-'] else []) ++ l.magnitude code)

end NumberLayout

end TableLoad
