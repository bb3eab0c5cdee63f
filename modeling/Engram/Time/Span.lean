import Engram.Number.Power

/-!
Lengths of time, in nanoseconds. Only lengths whose whole milliseconds fit in a signed 64-bit word
can be made from larger units.
-/

namespace Engram.Time

structure Span where
  nanos : Int
  deriving DecidableEq, Repr

instance : Ord Span where
  compare a b := compare a.nanos b.nanos

namespace Span

def zero : Span := ⟨0⟩

def ofMillis (n : Int) : Span := ⟨n * 1000000⟩

/-- The greatest number of milliseconds in a length of time. -/
def mostMillis : Int := Number.twoTo 63 - 1

/-- `n` seconds, if that many can be counted in milliseconds. -/
def ofSeconds? (n : Int) : Option Span :=
  if n.natAbs * 1000 ≤ mostMillis.natAbs then some ⟨n * 1000000000⟩ else none

def ofMinutes? (n : Int) : Option Span := ofSeconds? (n * 60)

def ofHours? (n : Int) : Option Span := ofSeconds? (n * 3600)

/-- Whole milliseconds, toward zero. -/
def millis (s : Span) : Int := s.nanos.tdiv 1000000

/-- Whole seconds, toward zero. -/
def seconds (s : Span) : Int := s.nanos.tdiv 1000000000

/-- Whole minutes, toward zero. -/
def minutes (s : Span) : Int := s.seconds.tdiv 60

def max (a b : Span) : Span := if a.nanos < b.nanos then b else a

end Span

end Engram.Time
