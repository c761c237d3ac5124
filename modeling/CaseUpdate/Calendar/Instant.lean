namespace CaseUpdate.Calendar

/-- A date of the Gregorian calendar, which is continued in both directions. -/
structure Date where
  year : Int
  month : Nat
  day : Nat
deriving DecidableEq

def nanosPerSecond : Nat := 1000000000

/-- A time of day. In a leap second `nanos` runs on past those of one second. -/
structure Time where
  hour : Nat
  minute : Nat
  second : Nat
  nanos : Nat
deriving DecidableEq

/-- A date and a time of day, in no time zone. -/
structure Instant where
  date : Date
  time : Time
deriving DecidableEq

def isLeapYear (year : Int) : Bool := year % 4 = 0 && (year % 100 ≠ 0 || year % 400 = 0)

/-- The days of a year before a month. -/
def daysBeforeMonth (year : Int) (month : Nat) : Nat :=
  ([0, 31, 59, 90, 120, 151, 181, 212, 243, 273, 304, 334][month - 1]?).getD 0 +
    (if 2 < month ∧ isLeapYear year then 1 else 0)

/-- The days before a year, from the first day of the year 1 on. -/
def daysBeforeYear (year : Int) : Int :=
  let y := year - 1
  365 * y + y / 4 - y / 100 + y / 400

namespace Date

/-- The number of the day in its year, from 1 on. -/
def dayOfYear (d : Date) : Nat := daysBeforeMonth d.year d.month + d.day

/-- The days since the last day of the year 0, which was a Sunday. -/
def dayNumber (d : Date) : Int := daysBeforeYear d.year + d.dayOfYear

/-- The day of the week: 0 is Sunday. -/
def weekday (d : Date) : Nat := (d.dayNumber % 7).toNat

/-- The day of the week from 1 for Monday to 7 for Sunday. -/
def isoWeekday (d : Date) : Nat := if d.weekday = 0 then 7 else d.weekday

/-- The week of the year, where the first Sunday begins week 1. -/
def weekFromSunday (d : Date) : Nat := (d.dayOfYear + 6 - d.weekday) / 7

/-- The week of the year, where the first Monday begins week 1. -/
def weekFromMonday (d : Date) : Nat := (d.dayOfYear + 6 - (d.weekday + 6) % 7) / 7

/-- The Thursday of the week of a date, by its day number; its year is that of the week. -/
def thursday (d : Date) : Int := d.dayNumber + 4 - d.isoWeekday

/-- The year to which the week of a date belongs: that of its Thursday. -/
def isoYear (d : Date) : Int :=
  if d.thursday ≤ daysBeforeYear d.year then d.year - 1
  else if daysBeforeYear (d.year + 1) < d.thursday then d.year + 1
  else d.year

/-- The number of the week in its year, from 1 on. -/
def isoWeek (d : Date) : Nat := ((d.thursday - daysBeforeYear d.isoYear - 1) / 7).toNat + 1

def quarter (d : Date) : Nat := (d.month + 2) / 3

end Date

namespace Instant

/-- The seconds since the beginning of 1970. A leap second counts as the one before it. -/
def unixSeconds (t : Instant) : Int :=
  (t.date.dayNumber - 719163) * 86400 + t.time.hour * 3600 + t.time.minute * 60 + t.time.second

end Instant

end CaseUpdate.Calendar
