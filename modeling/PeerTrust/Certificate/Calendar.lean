/-!
# Civil dates

Dates of the Gregorian calendar and their distance in seconds from the start of 1970.
-/

namespace PeerTrust.Calendar

/-- Whether a year has a twenty-ninth of February. -/
def isLeap (year : Nat) : Bool :=
  year % 4 = 0 && (year % 100 ≠ 0 || year % 400 = 0)

/-- The number of days in a month. -/
def daysInMonth (year month : Nat) : Nat :=
  match month with
  | 2 => if isLeap year then 29 else 28
  | 4 => 30
  | 6 => 30
  | 9 => 30
  | 11 => 30
  | _ => 31

/-- The days of all years before a year, counted from year 1. -/
def daysBeforeYear (year : Nat) : Nat :=
  let past := year - 1
  past * 365 + past / 4 - past / 100 + past / 400

/-- The days of a year before a month. -/
def daysBeforeMonth (year month : Nat) : Nat :=
  (List.range (month - 1)).foldl (fun days index => days + daysInMonth year (index + 1)) 0

/-- A point in civil time. -/
structure Instant where
  year : Nat
  month : Nat
  day : Nat
  hour : Nat
  minute : Nat
  second : Nat
  deriving DecidableEq, Repr

/-- Whether month, day and time of day are within their ranges. -/
def Instant.isValid (instant : Instant) : Bool :=
  1 ≤ instant.month && instant.month ≤ 12 && 1 ≤ instant.day &&
    instant.day ≤ daysInMonth instant.year instant.month &&
    instant.hour ≤ 23 && instant.minute ≤ 59 && instant.second ≤ 59

/-- The seconds from the start of 1970, for years from 1970 on. -/
def Instant.toSeconds (instant : Instant) : Nat :=
  let days := daysBeforeYear instant.year - daysBeforeYear 1970 +
    daysBeforeMonth instant.year instant.month + (instant.day - 1)
  days * 86400 + instant.hour * 3600 + instant.minute * 60 + instant.second

/-- The number that two decimal digits write. -/
def twoDigits? (high low : UInt8) : Option Nat :=
  if 0x30 ≤ high ∧ high ≤ 0x39 ∧ 0x30 ≤ low ∧ low ≤ 0x39 then
    some ((high.toNat - 0x30) * 10 + (low.toNat - 0x30))
  else none

end PeerTrust.Calendar
