import TableLoad.Text.Blank

namespace TableLoad

/-- A length of time. In its text a year is 365.25 days and a month 30.44 days. -/
structure Duration where
  seconds : Nat
  nanos : Nat
  nanos_lt : nanos < 1000000000
deriving DecidableEq, Repr

namespace Duration

def zero : Duration :=
  ⟨0, 0, by decide⟩

def ofNanos (n : Nat) : Duration :=
  ⟨n / 1000000000, n % 1000000000, Nat.mod_lt _ (by decide)⟩

def inNanos (d : Duration) : Nat :=
  d.seconds * 1000000000 + d.nanos

theorem ofNanos_inNanos (d : Duration) : ofNanos d.inNanos = d := by
  obtain ⟨s, n, h⟩ := d
  simp only [inNanos, ofNanos, mk.injEq]
  omega

/-- A unit of whole seconds or of nanoseconds. -/
inductive UnitSize
  | seconds (n : Nat)
  | nanos (n : Nat)
deriving DecidableEq, Repr

/-- The unit that a name stands for; capitals matter. -/
def unitSize? (name : String) : Option UnitSize :=
  match name with
  | "nanos" | "nsec" | "ns" => some (.nanos 1)
  | "usec" | "us" => some (.nanos 1000)
  | "millis" | "msec" | "ms" => some (.nanos 1000000)
  | "seconds" | "second" | "secs" | "sec" | "s" => some (.seconds 1)
  | "minutes" | "minute" | "mins" | "min" | "m" => some (.seconds 60)
  | "hours" | "hour" | "hrs" | "hr" | "h" => some (.seconds 3600)
  | "days" | "day" | "d" => some (.seconds 86400)
  | "weeks" | "week" | "wk" | "w" => some (.seconds 604800)
  | "months" | "month" | "M" => some (.seconds 2630016)
  | "years" | "year" | "y" => some (.seconds 31557600)
  | _ => none

/-- A count with a unit that has a plural; nothing for none. -/
def plural (n : Nat) (unit : String) : List String :=
  if n = 0 then [] else if n = 1 then ["1" ++ unit] else [toString n ++ unit ++ "s"]

/-- A count with a unit that has no plural; nothing for none. -/
def counted (n : Nat) (unit : String) : List String :=
  if n = 0 then [] else [toString n ++ unit]

/-- The parts that are not zero, from years to nanoseconds. Each is taken from what the larger
units leave. -/
def parts (d : Duration) : List String :=
  let inYear := d.seconds % 31557600
  let inMonth := inYear % 2630016
  let inDay := inMonth % 86400
  plural (d.seconds / 31557600) "year" ++ plural (inYear / 2630016) "month" ++
    plural (inMonth / 86400) "day" ++ counted (inDay / 3600) "h" ++
    counted (inDay % 3600 / 60) "m" ++ counted (inDay % 60) "s" ++
    counted (d.nanos / 1000000) "ms" ++ counted (d.nanos / 1000 % 1000) "us" ++
    counted (d.nanos % 1000) "ns"

def text (d : Duration) : String :=
  match d.parts with
  | [] => "0s"
  | parts => " ".intercalate parts

/-- Where the reader stands: between two counts, inside the digits of one, or inside its unit,
whose letters come latest first. -/
inductive Stage
  | between
  | count (n : Nat)
  | unit (n : Nat) (letters : List Char)
deriving DecidableEq, Repr

/-- What the items so far add up to. -/
structure Sum where
  seconds : Nat
  nanos : Nat
deriving DecidableEq, Repr

/-- A count fits 64 bits, and so do the seconds and the nanoseconds that it stands for. -/
def fits (n : Nat) : Bool :=
  n < UInt64.size

/-- Adds one item. Nanoseconds past a second are carried over. -/
def Sum.add? (s : Sum) (n : Nat) (letters : List Char) : Option Sum := do
  match ← unitSize? (String.ofList letters.reverse) with
  | .seconds k =>
    if fits (n * k) && fits (s.seconds + n * k) then some { s with seconds := s.seconds + n * k }
    else none
  | .nanos k =>
    let nanos := s.nanos + n * k
    let seconds := s.seconds + nanos / 1000000000
    if fits nanos && fits seconds then some ⟨seconds, nanos % 1000000000⟩ else none

def digit (c : Char) : Nat :=
  c.toNat - '0'.toNat

/-- One more character. Blanks may stand around a unit and among the digits before it. -/
def step (stage : Stage) (s : Sum) (c : Char) : Option (Stage × Sum) :=
  match stage with
  | .between =>
    if c.isDigit then some (.count (digit c), s)
    else if Text.isBlank c then some (.between, s) else none
  | .count n =>
    if c.isDigit then
      if fits (n * 10 + digit c) then some (.count (n * 10 + digit c), s) else none
    else if Text.isBlank c then some (.count n, s)
    else if c.isAlpha then some (.unit n [c], s) else none
  | .unit n letters =>
    if c.isAlpha then some (.unit n (c :: letters), s)
    else if c.isDigit then (s.add? n letters).map (.count (digit c), ·)
    else if Text.isBlank c then (s.add? n letters).map (.between, ·) else none

def finish? (stage : Stage) (s : Sum) : Option Duration := do
  let s ← match stage with
    | .between => some s
    | .count _ => none
    | .unit n letters => s.add? n letters
  return ofNanos (s.seconds * 1000000000 + s.nanos)

/-- Reads counts with their units, which add up; at least one. -/
def parse? (text : String) : Option Duration := do
  if Text.isAllBlank text then none
  else
    let (stage, s) ← text.toList.foldlM (fun (stage, s) c => step stage s c)
      (Stage.between, Sum.mk 0 0)
    finish? stage s

end Duration

end TableLoad
