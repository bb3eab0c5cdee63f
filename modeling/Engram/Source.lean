import Engram.Uid
import Engram.Time.Instant

/-!
What a running mind reads from outside without asking anyone: the time, the local zone, and
fresh identifiers.
-/

namespace Engram

/-- A clock in a time zone. Every reading moves it on by `tick` nanoseconds. -/
structure Clock where
  time : Time.Instant
  zone : Time.Zone
  tick : Nat

namespace Clock

def today (c : Clock) : Time.Date := c.zone.date c.time

/-- Move on by some milliseconds. -/
def advance (c : Clock) (millis : Int) : Clock :=
  { c with time := c.time.add (.ofMillis millis) }

/-- Read the time. -/
def now (c : Clock) : Time.Instant × Clock :=
  (c.time, { c with time := c.time.add ⟨c.tick⟩ })

/-- The milliseconds that have passed since an earlier time. -/
def elapsed (c : Clock) (start : Time.Instant) : Nat :=
  (c.time.since start).millis.toNat

end Clock

/-- A clock, and a stream of identifiers with the number of those already drawn. -/
structure Source where
  clock : Clock
  ids : Nat → Uid
  drawn : Nat

namespace Source

/-- Read the time. -/
def now (s : Source) : Time.Instant × Source :=
  let (time, clock) := s.clock.now
  (time, { s with clock })

/-- Read the local date. -/
def today (s : Source) : Time.Date × Source :=
  let (time, s) := s.now
  (s.clock.zone.date time, s)

/-- Draw the next identifier. -/
def freshId (s : Source) : Uid × Source :=
  (s.ids s.drawn, { s with drawn := s.drawn + 1 })

end Source

open Number in
/-- The `n`-th identifier of a stream: random version, with the seed in its first 48 bits and the
count in its last 62. -/
def Uid.ofStream (seed n : Nat) : Uid :=
  ⟨BitVec.ofNat 128 (seed % twoTo 48 * twoTo 80 + 4 * twoTo 76 + 2 * twoTo 62 + n % twoTo 62)⟩

end Engram
