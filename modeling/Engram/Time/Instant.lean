import Engram.Time.Date
import Engram.Time.Span

/-!
Points in time, in UTC with nanoseconds, and their text. A leap second is a second whose
nanoseconds run on past a thousand million.
-/

namespace Engram.Time

/-- Seconds since 1970 and nanoseconds into the second. -/
structure Instant where
  seconds : Int
  nanos : Nat
  deriving DecidableEq, Repr

/-- Nanoseconds in a second. -/
def billion : Nat := 1000000000

def secondsPerDay : Int := 86400

namespace Instant

instance : Ord Instant where
  compare a b := (compare a.seconds b.seconds).then (compare a.nanos b.nanos)

def before (a b : Instant) : Bool := compare a b == .lt

def isLeap (t : Instant) : Bool := billion ≤ t.nanos

/-- Move by a length of time. Leaving a leap second counts it; staying inside keeps it. -/
def add (t : Instant) (s : Span) : Instant :=
  let whole := s.nanos.tdiv billion
  let part := s.nanos.tmod billion
  if t.isLeap && whole == 0 && (t.nanos : Int) + part < 2 * billion then
    ⟨t.seconds, (t.nanos + part).toNat⟩
  else
    let seconds := if t.isLeap && s.nanos < 0 then t.seconds + 1 else t.seconds
    let nanos := if t.isLeap then (t.nanos : Int) - billion else t.nanos
    let total := nanos + part
    ⟨seconds + whole + total / billion, (total % billion).toNat⟩

/-- The length of time from `b` to `a`. The one that is earlier in its day may be a leap second
that still has to be counted. -/
def since (a b : Instant) : Span :=
  let ofDayA := a.seconds % secondsPerDay
  let ofDayB := b.seconds % secondsPerDay
  let leap : Int :=
    if ofDayB < ofDayA && b.isLeap then 1
    else if ofDayA < ofDayB && a.isLeap then -1
    else 0
  ⟨(a.seconds - b.seconds + leap) * billion + ((a.nanos : Int) - b.nanos)⟩

def date (t : Instant) : Date :=
  ⟨t.seconds / secondsPerDay⟩

/-- The same reading of a clock that shows no leap seconds. -/
def settled (t : Instant) : Instant :=
  ⟨t.seconds + t.nanos / billion, t.nanos % billion⟩

/-- The time of day as text, with the fraction of the second left out. -/
def timeText (t : Instant) : String :=
  let ofDay := (t.seconds % secondsPerDay).toNat
  let second := ofDay % 60 + if t.isLeap then 1 else 0
  Number.padded 2 (ofDay / 3600) ++ ":" ++ Number.padded 2 (ofDay / 60 % 60) ++ ":"
    ++ Number.padded 2 second

/-- The fraction of the second: nothing, or three, six or nine digits, the fewest that are exact. -/
def fractionText (t : Instant) : String :=
  let nanos := t.nanos % billion
  if nanos = 0 then ""
  else if nanos % 1000000 = 0 then "." ++ Number.padded 3 (nanos / 1000000)
  else if nanos % 1000 = 0 then "." ++ Number.padded 6 (nanos / 1000)
  else "." ++ Number.padded 9 nanos

/-- Date, time and fraction, followed by a mark for UTC. -/
def stamp (mark : String) (t : Instant) : String :=
  t.date.text ++ "T" ++ t.timeText ++ t.fractionText ++ mark

/-- The text of an instant in a record. -/
def text (t : Instant) : String := t.stamp "Z"

/-- The text of an instant in a column that is sorted as text, with the offset in digits. -/
def offsetText (t : Instant) : String := t.stamp "+00:00"

/-- Date and time, apart and without a fraction. -/
def plainText (t : Instant) : String := t.date.text ++ " " ++ t.timeText

end Instant

/-- Where local dates are read: any rule that gives an instant its date, also one by which clocks
are put forward and back. -/
structure Zone where
  /-- The local date of an instant. -/
  date : Instant → Date

/-- The zone in which local time is ahead of UTC by a fixed number of seconds. -/
def Zone.fixed (secondsEast : Int) : Zone :=
  ⟨fun t => ⟨(t.seconds + secondsEast) / secondsPerDay⟩⟩

end Engram.Time
