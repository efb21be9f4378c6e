namespace TableLoad

/-- A binary floating-point number of 64 bits, kept exactly. The codes of the finite magnitudes are
the numbers that their exponent and fraction bits spell, in ascending order; that of infinity comes
behind them. -/
inductive Binary64
  | nan
  | infinity (negative : Bool)
  | finite (negative : Bool) (code : Nat) (code_lt : code < 0x7FF0000000000000)
deriving DecidableEq, Repr

namespace Binary64

/-- How many magnitudes lie from one power of two up to the next. -/
def binade : Nat := 0x10000000000000

/-- How many units make one. -/
def unitsOfOne : Nat := 1 <<< 1074

/-- How often the spacing at a magnitude has doubled since the smallest one. -/
def doublings (code : Nat) : Nat :=
  code / binade - 1

/-- The magnitude counted in units of `2 ^ (-1074)`. -/
def units (code : Nat) : Nat :=
  (code - doublings code * binade) <<< doublings code

/-- The quotient to the nearest whole number; a half goes to the even neighbour. -/
def roundDiv (num den : Nat) : Nat :=
  let q := num / den
  let r := num % den
  if 2 * r > den || (2 * r == den && q % 2 == 1) then q + 1 else q

/-- The number of the magnitude nearest to `num / den`, as if the range of magnitudes had no end.
Rounding up past the last fraction of one spacing gives the first of the next. -/
def nearestCode (num den : Nat) : Nat :=
  let n := num * unitsOfOne
  let e := Nat.log2 (n / den) - 52
  e * binade + roundDiv n (den <<< e)

/-- The number nearest to a quotient; infinite past the largest one. -/
def ofRatio (negative : Bool) (num den : Nat) : Binary64 :=
  let code := nearestCode num den
  if h : code < 0x7FF0000000000000 then finite negative code h else infinity negative

/-- Zero with a sign. -/
def zero (negative : Bool) : Binary64 :=
  finite negative 0 (by decide)

/-- The number nearest to a whole number. -/
def ofInt (i : Int) : Binary64 :=
  ofRatio (i < 0) i.natAbs 1

/-- The number nearest to `coefficient * 10 ^ exponent`. Far from the range that the format
covers the power of ten is not computed: from `10 ^ 400` on everything is infinite, and what lies
below `10 ^ (-400)` is zero. -/
def ofDecimal (negative : Bool) (coefficient : Nat) (exponent : Int) : Binary64 :=
  if coefficient = 0 then zero negative
  else if 400 < exponent then infinity negative
  else if exponent < -(400 + (Nat.log2 coefficient : Int)) then zero negative
  else if 0 ≤ exponent then ofRatio negative (coefficient * Nat.pow 10 exponent.toNat) 1
  else ofRatio negative coefficient (Nat.pow 10 (-exponent).toNat)

/-- The product to the nearest number; a factor that is not finite makes it no number. -/
def mul : Binary64 → Binary64 → Binary64
  | finite a m _, finite b n _ => ofRatio (a != b) (units m * units n) (unitsOfOne * unitsOfOne)
  | _, _ => nan

/-- The quotient to the nearest number. Only finite numbers are divided, and not by zero. -/
def div : Binary64 → Binary64 → Binary64
  | finite a m _, finite b n _ =>
    if units n = 0 then nan else ofRatio (a != b) (units m) (units n)
  | _, _ => nan

/-- The number nearest to a power of ten. -/
def powerOfTen (n : Nat) : Binary64 :=
  ofDecimal false 1 n

/-- The largest power of ten that is a finite number. -/
def maxPowerOfTen : Nat := 308

/-- A significand of 64 bits times a power of ten, worked out in floats: the significand and the
power are rounded before they are multiplied or divided, and the result is rounded again. Below
`10 ^ (-308)` it takes two divisions; when they have divided by `10 ^ 616` nothing is left. -/
def scaled (negative : Bool) (significand : Nat) (exponent : Int) : Binary64 :=
  let x := ofRatio negative significand 1
  let n := exponent.natAbs
  if significand = 0 then x
  else if 0 ≤ exponent then
    if n ≤ maxPowerOfTen then x.mul (powerOfTen n) else infinity negative
  else if n ≤ maxPowerOfTen then x.div (powerOfTen n)
  else (x.div (powerOfTen maxPowerOfTen)).div
    (powerOfTen (min (n - maxPowerOfTen) maxPowerOfTen))

def isFinite : Binary64 → Bool
  | finite .. => true
  | _ => false

/-- Whether anything but zero stands behind the point. What is not finite has no such part; the
part worked out for it is no number, and so not zero. -/
def hasFraction : Binary64 → Bool
  | finite _ code _ => units code % unitsOfOne != 0
  | _ => true

/-- The part before the point as an integer of 64 signed bits; what lies outside their range goes
to the nearer end of it, and what is no number to zero. -/
def truncate : Binary64 → Int
  | nan => 0
  | infinity negative => if negative then -0x8000000000000000 else 0x7FFFFFFFFFFFFFFF
  | finite negative code _ =>
    let n : Int := (units code / unitsOfOne : Nat)
    max (-0x8000000000000000) (min (if negative then -n else n) 0x7FFFFFFFFFFFFFFF)

/-- The place in ascending order, the same for zeros of both signs; what is no number has none. -/
def rank? : Binary64 → Option Int
  | nan => none
  | infinity negative => some (if negative then -0x7FF0000000000000 else 0x7FF0000000000000)
  | finite negative code _ => some (if negative then -code else code)

/-- The first is less than the second; what is no number compares with nothing. -/
def lessThan (x y : Binary64) : Bool :=
  match x.rank?, y.rank? with
  | some a, some b => a < b
  | _, _ => false

/-- The first is at most the second. -/
def atMost (x y : Binary64) : Bool :=
  match x.rank?, y.rank? with
  | some a, some b => a ≤ b
  | _, _ => false

/-- The 64 bits as a number; one pattern stands for every number that is none. -/
def bits : Binary64 → Nat
  | nan => 0x7FF8000000000000
  | infinity negative => (if negative then 0x8000000000000000 else 0) + 0x7FF0000000000000
  | finite negative code _ => (if negative then 0x8000000000000000 else 0) + code

/-- The number that 64 bits stand for. -/
def ofBits (n : Nat) : Binary64 :=
  let negative := n / 0x8000000000000000 % 2 == 1
  let code := n % 0x8000000000000000
  if h : code < 0x7FF0000000000000 then finite negative code h
  else if code = 0x7FF0000000000000 then infinity negative
  else nan

theorem ofBits_bits (x : Binary64) : ofBits x.bits = x := by
  cases x with
  | nan => rfl
  | infinity negative => cases negative <;> rfl
  | finite negative code code_lt =>
    have sign : ((if negative then 0x8000000000000000 else 0) + code) / 0x8000000000000000 % 2 =
        if negative then 1 else 0 := by
      split <;> omega
    have rest : ((if negative then 0x8000000000000000 else 0) + code) % 0x8000000000000000 = code := by
      split <;> omega
    simp only [bits, ofBits, sign, rest, dif_pos code_lt]
    cases negative <;> rfl

/-- Equality of values: zeros of both signs are equal, and what is not a number differs from
everything. -/
def equalValue : Binary64 → Binary64 → Bool
  | nan, _ => false
  | _, nan => false
  | infinity a, infinity b => a == b
  | finite a m _, finite b n _ => m == n && (a == b || m == 0)
  | _, _ => false

end Binary64

end TableLoad
