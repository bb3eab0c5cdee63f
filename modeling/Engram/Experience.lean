import Engram.Error
import Engram.Uid
import Engram.Time.Codec

/-!
Experiences of a day. Every interaction leaves one, and the next nightly run takes them all; while
none runs, the oldest give way to the newest once the buffer is full.
-/

namespace Engram

structure Experience where
  id : Uid
  input : String
  output : String
  concepts : List String
  tier : Tier
  timestamp : Time.Instant

namespace Experience

open Json in
instance : Codec Experience where
  encode e := .obj [
    ("id", encode e.id), ("input", encode e.input), ("output", encode e.output),
    ("concepts", encode e.concepts), ("tier", encode e.tier), ("timestamp", encode e.timestamp)]
  decode := record ["id", "input", "output", "concepts", "tier", "timestamp"] fun f => do
    return {
      id := ← f.need "id"
      input := ← f.need "input"
      output := ← f.need "output"
      concepts := ← f.need "concepts"
      tier := ← f.need "tier"
      timestamp := ← f.need "timestamp" }

/-- The concept that stands for an experience in a sequence. -/
def primary (e : Experience) : Option String := e.concepts.head?

end Experience

/-- The experiences waiting for the next nightly run, oldest first. -/
structure DayBuffer where
  /-- The local date on which the buffered experiences begin. -/
  day : Time.Date
  experiences : List Experience
  capacity : Nat
  /-- How many were dropped to the bound since the buffer was last empty. -/
  dropped : Nat

namespace DayBuffer

/-- An empty buffer; it has room for at least one experience. -/
def empty (capacity : Nat) (today : Time.Date) : DayBuffer :=
  ⟨today, [], max capacity 1, 0⟩

/-- The local date of the first experience, or today if there is none. -/
def firstDay (zone : Time.Zone) (today : Time.Date) : List Experience → Time.Date
  | [] => today
  | first :: _ => zone.date first.timestamp

/-- Drop as many of the oldest as exceed the bound. -/
def bound (capacity : Nat) (experiences : List Experience) : List Experience :=
  experiences.drop (experiences.length - capacity)

/-- Add an experience. The day stays as it is unless the buffer was empty or an experience had to
be dropped. -/
def record (b : DayBuffer) (zone : Time.Zone) (e : Experience) : DayBuffer :=
  let kept := bound (b.capacity - 1) b.experiences
  let overflow := b.experiences.length - kept.length
  { b with
    day := if kept.isEmpty || 0 < overflow then firstDay zone (zone.date e.timestamp) kept else b.day
    experiences := kept ++ [e]
    dropped := b.dropped + overflow }

/-- Remove the experiences that an archive entry now holds. -/
def clear (b : DayBuffer) (zone : Time.Zone) (today : Time.Date) (consumed : List Uid) : DayBuffer :=
  let left := b.experiences.filter fun e => !consumed.contains e.id
  { b with
    day := firstDay zone today left
    experiences := left
    dropped := if left.isEmpty then 0 else b.dropped }

/-- Put recovered experiences in front of those recorded since. The recovered day counts, if it is
earlier than one that exists, as long as nothing had to be dropped. -/
def restore (b : DayBuffer) (zone : Time.Zone) (today day : Time.Date)
    (recovered : List Experience) : DayBuffer :=
  if recovered.isEmpty then b
  else
    let known := b.experiences.map (·.id)
    let merged := (recovered.filter fun e => !known.contains e.id) ++ b.experiences
    let kept := bound b.capacity merged
    let overflow := merged.length - kept.length
    let first := firstDay zone today kept
    { b with
      day := if overflow = 0 && first.isValid && day.days < first.days then day else first
      experiences := kept
      dropped := b.dropped + overflow }

/-- A changed buffer, if its experiences begin on a local date that exists. At the very end of time
they may not; then the day stays as it was. -/
def settle (b changed : DayBuffer) : DayBuffer × Except Error Unit :=
  if changed.day.isValid then (changed, .ok ())
  else ({ changed with day := b.day }, .error .undefined)

/-- Drop the oldest experiences until there is room for one more. -/
def makeRoom (b : DayBuffer) : DayBuffer :=
  let kept := bound (b.capacity - 1) b.experiences
  { b with experiences := kept, dropped := b.dropped + (b.experiences.length - kept.length) }

/-- Add experiences, up to the first one that leads to a day which does not exist. What had to be
dropped for that one is gone all the same. -/
def recordAll (zone : Time.Zone) : DayBuffer → List Experience → DayBuffer × Except Error Unit
  | b, [] => (b, .ok ())
  | b, e :: es =>
    let changed := b.record zone e
    if changed.day.isValid then recordAll zone changed es else (b.makeRoom, .error .undefined)

end DayBuffer

end Engram
