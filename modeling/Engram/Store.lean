import Engram.Memory

/-!
The active memories: for each tier the list of its memories in order of arrival. A consolidation
works on the list it has read and then puts its result in place of the tier; what arrived in the
meantime is kept.

A memory that was enrolled once may stand at several places, and a list that was read earlier may
hold it after it has left its tier. Its use is one and the same everywhere, so every enrollment has
a number, and a change of use reaches all places of that number.
-/

namespace Engram

/-- A memory as the store holds it, under the number of its enrollment. -/
structure Trace where
  number : Nat
  memory : Memory

structure Store where
  tiers : Tiers (List Trace)
  /-- Traces that have left their tiers, as they were then, the latest first. -/
  former : List Trace
  /-- The number of enrollments so far. -/
  enrolled : Nat

namespace Store

def empty : Store := ⟨.replicate [], [], 0⟩

/-- The traces of a tier. -/
def traces (s : Store) (t : Tier) : List Trace := s.tiers.get t

/-- The memories of a tier. -/
def memories (s : Store) (t : Tier) : List Memory := (s.traces t).map (·.memory)

def size (s : Store) (t : Tier) : Nat := (s.traces t).length

/-- The sizes of all tiers, in tier order. -/
def sizes (s : Store) : List (Tier × Nat) :=
  Tier.all.map fun t => (t, s.size t)

def total (s : Store) : Nat :=
  s.sizes.foldl (fun n size => n + size.2) 0

/-- All traces, tier by tier. -/
def all (s : Store) : List Trace :=
  Tier.all.flatMap s.traces

/-- Number the memories of a list. -/
def enroll (s : Store) (memories : List Memory) : List Trace × Store :=
  (memories.mapIdx fun i m => ⟨s.enrolled + i, m⟩,
    { s with enrolled := s.enrolled + memories.length })

/-- Append a memory to its tier. -/
def add (s : Store) (m : Memory) : Store :=
  let (new, s) := s.enroll [m]
  { s with tiers := s.tiers.set m.tier (s.traces m.tier ++ new) }

/-- Put a list of traces in place of a tier. -/
def put (s : Store) (t : Tier) (traces : List Trace) : Store :=
  let placed := { s with tiers := s.tiers.set t traces }
  let left := (s.traces t).filter fun a => !placed.all.any (·.number == a.number)
  { placed with former := left ++ s.former }

/-- Put new memories in place of a tier. -/
def replace (s : Store) (t : Tier) (memories : List Memory) : Store :=
  let (new, s) := s.enroll memories
  s.put t new

/-- Put the outcome of a consolidation in place: what it kept of `base`, followed by the memories
that arrived after `base` was read. The number of those is returned. -/
def commit (s : Store) (t : Tier) (base kept : List Trace) : Store × Nat :=
  let known := base.map (·.memory.id)
  let late := (s.traces t).filter fun a => !known.contains a.memory.id
  (s.put t (kept ++ late), late.length)

/-- The first trace of a memory with an identifier, going through the tiers in order. -/
def find? (s : Store) (id : Uid) : Option Trace :=
  s.all.find? (·.memory.id == id)

/-- Change all traces. -/
def map (s : Store) (f : Trace → Memory) : Store :=
  let change (a : Trace) : Trace := { a with memory := f a }
  { s with tiers := s.tiers.map (List.map change) }

/-- Change the memory that was enrolled under a number. -/
def modify (s : Store) (number : Nat) (f : Memory → Memory) : Store :=
  s.map fun a => if a.number = number then f a.memory else a.memory

/-- A trace as it now stands: with its use so far. -/
def current (s : Store) (a : Trace) : Trace :=
  ((s.all ++ s.former).find? (·.number == a.number)).getD a

end Store

end Engram
