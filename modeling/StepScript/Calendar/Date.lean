/-!
# Date — days of the proleptic Gregorian calendar

A date is a year, a month and a day; `Date.toDays` numbers the days from 1 January 1970 and
`Date.ofDays` finds the date of a number.
-/

namespace StepScript

structure Date where
  year : Int
  month : Nat
  day : Nat
  deriving DecidableEq

namespace Date

/-- Every fourth year has a leap day, except three centuries out of four. -/
def isLeap (year : Int) : Bool :=
  year % 4 == 0 && (year % 100 != 0 || year % 400 == 0)

def daysInMonth (year : Int) (month : Nat) : Nat :=
  if month = 2 then if isLeap year then 29 else 28
  else if month = 4 || month = 6 || month = 9 || month = 11 then 30
  else 31

def isValid (d : Date) : Bool :=
  1 ≤ d.month && d.month ≤ 12 && 1 ≤ d.day && d.day ≤ daysInMonth d.year d.month

def daysBefore (year : Int) (month : Nat) : Nat :=
  (List.range (month - 1)).foldl (fun n m => n + daysInMonth year (m + 1)) 0

def dayOfYear (d : Date) : Nat :=
  daysBefore d.year d.month + (d.day - 1)

/-- The days from 1 January 1970 to 1 January of a year. -/
def yearStart (year : Int) : Int :=
  let y := year - 1
  365 * (year - 1970) + (y / 4 - 492) - (y / 100 - 19) + (y / 400 - 4)

def toDays (d : Date) : Int :=
  yearStart d.year + d.dayOfYear

/-- The month and day at a position within a year, looking from `month` on. -/
def findMonth (year : Int) : Nat → Nat → Nat → Nat × Nat
  | 0, month, position => (month, position + 1)
  | tries + 1, month, position =>
    let size := daysInMonth year month
    if position < size then (month, position + 1)
    else findMonth year tries (month + 1) (position - size)

/-- The date of a day number.  The first guess at the year is at most one off. -/
def ofDays (days : Int) : Date :=
  let guess := 1970 + days * 400 / 146097
  let year :=
    if days < yearStart guess then guess - 1
    else if days < yearStart (guess + 1) then guess
    else guess + 1
  let (month, day) := findMonth year 11 1 (days - yearStart year).toNat
  ⟨year, month, day⟩

/-- The day of the week from zero for Sunday; 1 January 1970 was a Thursday. -/
def dayOfWeek (days : Int) : Nat :=
  ((days + 4) % 7).toNat

end Date

end StepScript
