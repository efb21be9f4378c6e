namespace TableLoad

/-- A day of the Gregorian calendar, carried on without end in both directions. -/
structure Date where
  year : Int
  month : Nat
  day : Nat
deriving DecidableEq, Repr

namespace Date

def isLeapYear (year : Int) : Bool :=
  year % 4 == 0 && (year % 100 != 0 || year % 400 == 0)

def daysInMonth (year : Int) (month : Nat) : Nat :=
  if month = 2 then if isLeapYear year then 29 else 28
  else if month = 4 || month = 6 || month = 9 || month = 11 then 30
  else 31

def isValid (d : Date) : Bool :=
  1 ≤ d.month && d.month ≤ 12 && 1 ≤ d.day && d.day ≤ daysInMonth d.year d.month

/-- Days between the first of March of the year zero and the first of January 1970. -/
def epochOffset : Int := 719468

/-- The days before a month of a year that begins in March; `month` is counted from March. -/
def daysBeforeMonth (month : Int) : Int :=
  (153 * month + 2) / 5

/-- The number of a day, counted from the first of January 1970. Years begin in March here, so that
a leap day is the last of its year. -/
def toDays (d : Date) : Int :=
  let year := if d.month ≤ 2 then d.year - 1 else d.year
  let month : Int := if d.month ≤ 2 then d.month + 9 else d.month - 3
  365 * year + year / 4 - year / 100 + year / 400 + daysBeforeMonth month + d.day - 1 - epochOffset

/-- The day with a number. A cycle of the calendar has 400 years and 146097 days. -/
def ofDays (days : Int) : Date :=
  let n := days + epochOffset
  let inCycle := n % 146097
  let yearInCycle := (inCycle - inCycle / 1460 + inCycle / 36524 - inCycle / 146096) / 365
  let inYear := inCycle - (365 * yearInCycle + yearInCycle / 4 - yearInCycle / 100)
  let month := (5 * inYear + 2) / 153
  let year := n / 146097 * 400 + yearInCycle
  ⟨if month < 10 then year else year + 1, ((month + 2) % 12 + 1).toNat,
    (inYear - daysBeforeMonth month + 1).toNat⟩

end Date

end TableLoad
