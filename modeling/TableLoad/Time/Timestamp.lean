import TableLoad.Number.Written
import TableLoad.Text.Blank
import TableLoad.Time.Date
import TableLoad.Time.Duration

namespace TableLoad

/-- A moment; in a leap second the nanoseconds run on past one second. -/
structure Timestamp where
  /-- Seconds since the beginning of 1970. -/
  seconds : Int
  nanos : Nat
  nanos_lt : nanos < 2 * 1000000000
deriving DecidableEq, Repr

namespace Timestamp

/-- The time from one moment to a later one. -/
def durationTo (t later : Timestamp) : Duration :=
  .ofNanos ((later.seconds - t.seconds) * 1000000000 + later.nanos - t.nanos).toNat

/-- A number in so many digits at least. -/
def padded (width n : Nat) : String :=
  let ds := Nat.toDigits 10 n
  String.ofList (List.replicate (width - ds.length) '0' ++ ds)

/-- Years of other than four digits carry a sign. -/
def yearText (year : Int) : String :=
  if 0 ≤ year && year ≤ 9999 then padded 4 year.toNat
  else (if year < 0 then "-" else "+") ++ padded 4 year.natAbs

/-- So many digits of the fraction of a second; with none no point either. -/
def fractionText (digits nanos : Nat) : String :=
  if digits = 0 then "" else "." ++ padded digits (nanos / Nat.pow 10 (9 - digits))

/-- The fewest digits, in groups of three, that leave nothing out. -/
def fractionDigits (nanos : Nat) : Nat :=
  if nanos = 0 then 0
  else if nanos % 1000000 = 0 then 3
  else if nanos % 1000 = 0 then 6
  else 9

/-- The fraction of the second, without the leap second. -/
def fraction (t : Timestamp) : Nat :=
  t.nanos % 1000000000

/-- The moment with so many digits of the fraction. -/
def textWith (digits : Nat) (t : Timestamp) : String :=
  let date := Date.ofDays (t.seconds / 86400)
  let inDay := (t.seconds % 86400).toNat
  let leap := t.nanos / 1000000000
  yearText date.year ++ "-" ++ padded 2 date.month ++ "-" ++ padded 2 date.day ++ "T" ++
    padded 2 (inDay / 3600) ++ ":" ++ padded 2 (inDay / 60 % 60) ++ ":" ++
    padded 2 (inDay % 60 + leap) ++ fractionText digits t.fraction ++ "Z"

def text (t : Timestamp) : String :=
  t.textWith (fractionDigits t.fraction)

/-- Readers of characters; what they leave is read on. -/
abbrev Scan := StateT (List Char) Option

/-- Passes over blanks. -/
def blanks : Scan Unit :=
  modify fun cs => cs.dropWhile Text.isBlank

/-- The next character, if it meets a condition. -/
def character (p : Char → Bool) : Scan Char := fun
  | c :: cs => if p c then some (c, cs) else none
  | [] => none

/-- At least one digit and at most so many. -/
def digits (most : Nat) : Scan (List Char) := fun cs =>
  let ds := (cs.take most).takeWhile Char.isDigit
  if ds.isEmpty then none else some (ds, cs.drop ds.length)

/-- A number of one or two digits behind blanks. -/
def twoDigits : Scan Nat := do
  blanks
  return digitsValue (← digits 2)

/-- A year: with a sign it may have any number of digits, without one it has at most four. -/
def year : Scan Int := do
  blanks
  match ← get with
  | '-' :: cs => set cs; return -digitsValue (← digits cs.length)
  | '+' :: cs => set cs; return digitsValue (← digits cs.length)
  | _ => return digitsValue (← digits 4)

/-- Passes over a mark with blanks before it. -/
def mark (c : Char) : Scan Unit := do
  blanks
  let _ ← character (· == c)

/-- The nanoseconds behind a point; digits past the ninth do not count. -/
def nanosOfSecond : Scan Nat := do
  match ← get with
  | '.' :: cs =>
    set cs
    let ds ← digits 9
    modify fun cs => cs.dropWhile Char.isDigit
    return digitsValue ds * Nat.pow 10 (9 - ds.length)
  | _ => return 0

/-- A digit of a zone. -/
def zoneDigit : Scan Nat := do
  return digitsValue [← character Char.isDigit]

/-- The zone in seconds east: a letter or a word for none, or a sign, hours and minutes, which
colons and blanks may part. -/
def zone : Scan Int := do
  let cs ← get
  if (cs.take 3).map Char.toLower == ['u', 't', 'c'] then
    set (cs.drop 3)
    return 0
  let sign ← character fun c => c == 'Z' || c == 'z' || c == '+' || c == '-' || c == '\u2212'
  if sign == 'Z' || sign == 'z' then return 0
  let hours := 10 * (← zoneDigit) + (← zoneDigit)
  modify fun cs => cs.dropWhile fun c => c == ':' || Text.isBlank c
  let tens ← zoneDigit
  let minutes := 10 * tens + (← zoneDigit)
  guard (hours < 24 && minutes < 60)
  let offset : Int := 3600 * hours + 60 * minutes
  return if sign == '+' then offset else -offset

/-- The first and the last year of the calendar. -/
def years : Int × Int := (-262143, 262142)

/-- A date, a time of day and a zone, and blanks behind them. The sixtieth second of a minute is a
leap second. -/
def moment : Scan Timestamp := do
  let y ← year
  mark '-'
  let m ← twoDigits
  mark '-'
  let d ← twoDigits
  let _ ← character fun c => c == 't' || c == 'T' || c == ' '
  let hour ← twoDigits
  mark ':'
  let minute ← twoDigits
  mark ':'
  let second ← twoDigits
  let nanos ← nanosOfSecond
  blanks
  let offset ← zone
  blanks
  let date : Date := ⟨y, m, d⟩
  guard (years.1 ≤ y && y ≤ years.2 && date.isValid)
  guard (hour < 24 && minute < 60 && second ≤ 60)
  let leap := if second = 60 then 1 else 0
  let seconds : Int := date.toDays * 86400 + hour * 3600 + minute * 60 + (second - leap : Nat)
  let all := nanos + leap * 1000000000
  if h : all < 2 * 1000000000 then return ⟨seconds - offset, all, h⟩ else failure

/-- The moment that a text names. -/
def parse? (text : String) : Option Timestamp :=
  match moment text.toList with
  | some (t, []) => some t
  | _ => none

end Timestamp

end TableLoad
