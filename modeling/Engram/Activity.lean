import Engram.Time.Codec

/-!
Foreground activity: when the mind was last used, and how often of late.
-/

namespace Engram

structure Activity where
  /-- The times of use, in order of recording. -/
  log : List Time.Instant
  /-- Idle time counts from here until the first use. -/
  startedAt : Time.Instant

structure ActivityStats where
  totalEvents : Nat
  eventsPerMinute : Float
  lastActivity : Option Time.Instant
  idleSeconds : Int

open Json in
instance : Codec ActivityStats where
  encode s := .obj [
    ("totalEvents", encode s.totalEvents), ("eventsPerMinute", encode s.eventsPerMinute),
    ("lastActivity", encode s.lastActivity), ("idleSeconds", encode s.idleSeconds)]
  decode := record ["totalEvents", "eventsPerMinute", "lastActivity", "idleSeconds"] fun f => do
    return {
      totalEvents := ← f.need "totalEvents"
      eventsPerMinute := ← f.need "eventsPerMinute"
      lastActivity := ← f.maybe "lastActivity"
      idleSeconds := ← f.need "idleSeconds" }

namespace Activity

/-- The number of times kept. -/
def capacity : Nat := 1000

/-- The minutes over which the rate is measured. -/
def windowMinutes : Nat := 5

def start (now : Time.Instant) : Activity := ⟨[], now⟩

/-- Record uses, one after the other. -/
def recordAll (a : Activity) (times : List Time.Instant) : Activity :=
  let log := a.log ++ times
  { a with log := log.drop (log.length - capacity) }

def record (a : Activity) (time : Time.Instant) : Activity := a.recordAll [time]

def last (a : Activity) : Option Time.Instant := a.log.getLast?

/-- The time since the last use, or since the start. -/
def idle (a : Activity) (now : Time.Instant) : Time.Span :=
  (now.since (a.last.getD a.startedAt)).max .zero

/-- When the time over which the rate is measured began. -/
def windowStart (now : Time.Instant) : Time.Instant :=
  now.add (.ofMillis (-60000 * windowMinutes))

/-- Whether the window lies within time. -/
def hasWindow (now : Time.Instant) : Bool := (windowStart now).date.isValid

/-- Uses per minute of late. -/
def rate (a : Activity) (now : Time.Instant) : Float :=
  (a.log.countP fun t => !t.before (windowStart now)).toFloat / windowMinutes.toFloat

def stats (a : Activity) (now : Time.Instant) : ActivityStats :=
  ⟨a.log.length, a.rate now, a.last, (a.idle now).seconds⟩

end Activity

end Engram
