import Engram.Number.Fixed

/-!
Dates of the proleptic Gregorian calendar, counted in days. Year, month and day are computed from
the count, so two dates are equal exactly when their counts are.
-/

namespace Engram.Time

/-- A day, counted from the first of January 1970. -/
structure Date where
  days : Int
  deriving DecidableEq, Repr

instance : Ord Date where
  compare a b := compare a.days b.days

/-- Year, month and day. -/
structure Civil where
  year : Int
  month : Nat
  day : Nat
  deriving DecidableEq, Repr

def isLeapYear (year : Int) : Bool :=
  year % 4 == 0 && (year % 100 != 0 || year % 400 == 0)

def daysInMonth (year : Int) : Nat → Nat
  | 2 => if isLeapYear year then 29 else 28
  | 4 => 30
  | 6 => 30
  | 9 => 30
  | 11 => 30
  | _ => 31

/-- The first and the last year that a date can have. -/
def firstYear : Int := -262143

def lastYear : Int := 262142

/-- The days before the first of March of year zero, counted from 1970. -/
def eraOffset : Int := 719468

namespace Date

/-- The date of a year, month and day that exist. Years start in March, so that a leap day is the
last day of its year. -/
def ofCivil (c : Civil) : Date :=
  let year := if c.month ≤ 2 then c.year - 1 else c.year
  let era := year / 400
  let ofEra := (year % 400).toNat
  let month := if c.month ≤ 2 then c.month + 9 else c.month - 3
  let ofYear := (153 * month + 2) / 5 + c.day - 1
  ⟨era * 146097 + (ofEra * 365 + ofEra / 4 - ofEra / 100 + ofYear : Nat) - eraOffset⟩

def ofCivil? (c : Civil) : Option Date :=
  if firstYear ≤ c.year && c.year ≤ lastYear && 1 ≤ c.month && c.month ≤ 12 && 1 ≤ c.day
      && c.day ≤ daysInMonth c.year c.month then some (ofCivil c)
  else none

/-- Whether a count of days is one of the dates there are. -/
def isValid (d : Date) : Bool :=
  (ofCivil ⟨firstYear, 1, 1⟩).days ≤ d.days && d.days ≤ (ofCivil ⟨lastYear, 12, 31⟩).days

def civil (d : Date) : Civil :=
  let shifted := d.days + eraOffset
  let era := shifted / 146097
  let dayOfEra := (shifted % 146097).toNat
  let yearOfEra := (dayOfEra - dayOfEra / 1460 + dayOfEra / 36524 - dayOfEra / 146096) / 365
  let dayOfYear := dayOfEra - (365 * yearOfEra + yearOfEra / 4 - yearOfEra / 100)
  let monthIndex := (5 * dayOfYear + 2) / 153
  let month := if monthIndex < 10 then monthIndex + 3 else monthIndex - 9
  let year := era * 400 + yearOfEra
  ⟨if month ≤ 2 then year + 1 else year, month, dayOfYear - (153 * monthIndex + 2) / 5 + 1⟩

end Date

/-- A year has four digits; outside of 0 to 9999 it also has a sign. -/
def yearText (year : Int) : String :=
  if 0 ≤ year && year ≤ 9999 then Number.padded 4 year.toNat
  else (if year < 0 then "-" else "+") ++ Number.padded 4 year.natAbs

def Date.text (d : Date) : String :=
  let c := d.civil
  yearText c.year ++ "-" ++ Number.padded 2 c.month ++ "-" ++ Number.padded 2 c.day

end Engram.Time
