import Engram.Score
import Engram.Mind.Basic

/-!
Consolidation of a tier: the best memories stay, as many as there is room for, and the rest is
staged for the archive.
-/

namespace Engram

/-- What a consolidation did. -/
structure TierConsolidation where
  tier : Tier
  before : Nat
  after : Nat
  /-- The demoted memories, in the order of demotion. -/
  archived : List Uid
  /-- Memories that arrived while a pass ran. -/
  lateArrivals : Nat
  passes : Nat
  durationMs : Nat

open Json in
instance : Codec TierConsolidation where
  encode c := .obj [
    ("tier", encode c.tier), ("before", encode c.before), ("after", encode c.after),
    ("archived", encode c.archived), ("lateArrivals", encode c.lateArrivals),
    ("passes", encode c.passes), ("durationMs", encode c.durationMs)]
  decode := record [
    "tier", "before", "after", "archived", "lateArrivals", "passes", "durationMs"] fun f => do
    return {
      tier := ← f.need "tier"
      before := ← f.need "before"
      after := ← f.need "after"
      archived := ← f.need "archived"
      lateArrivals := ← f.need "lateArrivals"
      passes := ← f.need "passes"
      durationMs := ← f.need "durationMs" }

namespace Consolidation

/-- The score of a memory as a number to compare. One that cannot be scored is the first to go. -/
def keepScore (w : ScoreWeights) (now : Time.Instant) (m : Memory) : Float :=
  let score := Score.score (Score.factsOf m) w now
  if score.isFinite then score else Number.leastValue

/-- Better scores first, then older memories, then smaller identifiers. -/
def order (a b : Float × Trace) : Ordering :=
  (Number.compareTotal b.1 a.1).then
    ((compare a.2.memory.timestamp b.2.memory.timestamp).then
      (compare a.2.memory.id b.2.memory.id))

/-- Memories from the best to the worst. -/
def ordered (w : ScoreWeights) (now : Time.Instant) (traces : List Trace) : List Trace :=
  let scored := traces.map fun a => (keepScore w now a.memory, a)
  (scored.mergeSort fun a b => (order a b).isLE).map (·.2)

/-- The best `capacity` memories and the rest, both from the best to the worst. -/
def partition (w : ScoreWeights) (now : Time.Instant) (capacity : Nat) (traces : List Trace) :
    List Trace × List Trace :=
  (ordered w now traces).splitAt capacity

/-- Passes before giving up on a tier that keeps refilling. -/
def maxPasses : Nat := 3

end Consolidation

namespace Mind

open Consolidation

/-- Stage demoted memories for the archive. -/
def stage (s : Mind) (memories : List Memory) : Mind :=
  let (archive, source) := s.archive.stage s.source memories
  { s with archive, source }

/-- Passes over a tier as long as it is over its capacity and memories arrive meanwhile. -/
def consolidationPasses (tier : Tier) (now : Time.Instant) :
    Nat → Mind → TierConsolidation → Mind × TierConsolidation
  | 0, s, result => (s, result)
  | passes + 1, s, result =>
    let base := s.store.traces tier
    if base.length ≤ s.config.capacity tier then (s, result)
    else
      let (kept, demoted) := partition s.config.score now (s.config.capacity tier) base
      let (store, late) := s.store.commit tier base kept
      let demoted := demoted.map (·.memory)
      let s := { s with store }.stage demoted
      let result := { result with
        archived := result.archived ++ demoted.map (·.id)
        lateArrivals := result.lateArrivals + late
        passes := result.passes + 1 }
      if late = 0 then (s, result) else consolidationPasses tier now passes s result

/-- Bring a tier back to its capacity, with scores as of the given time. -/
def consolidateAt (s : Mind) (tier : Tier) (now : Time.Instant) : Mind × TierConsolidation :=
  let start := s.source.clock.time
  let (s, result) := consolidationPasses tier now maxPasses s {
    tier, before := s.store.size tier, after := 0, archived := [], lateArrivals := 0, passes := 0,
    durationMs := 0 }
  (s, { result with
    after := s.store.size tier
    durationMs := s.source.clock.elapsed start })

/-- Bring a tier back to its capacity. -/
def consolidate (s : Mind) (tier : Tier) : Mind × TierConsolidation :=
  let (time, s) := s.now
  s.consolidateAt tier time

end Mind

end Engram
