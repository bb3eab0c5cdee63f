import Engram.Cycle
import Engram.Nightly.Report
import Engram.Mind.Foreground
import Std.Data.HashSet

/-!
The four phases of a nightly run: patterns are extracted from the day, merged into the knowledge
base and into the associations of memories, trained on in guarded batches, and the day is sealed.
-/

namespace Engram

namespace Nightly

/-- Why a phase or a batch is left out when the conditions of the cycle have changed. -/
def gateClosed : String := "conditions no longer hold"

/-- Rolled-back batches in a row before the rest is left out. -/
def maxRollbacks : Nat := 3

/-- The patterns found, by kind. -/
def foundActions (patterns : List Pattern) : List String :=
  PatternKind.all.filterMap fun kind =>
    let count := patterns.countP (·.kind == kind)
    if count = 0 then none else some s!"Found {count} {kind.name} patterns"

/-- The pairs of concepts that go together. -/
def pairsOf (patterns : List Pattern) : List (String × String) :=
  patterns.filterMap fun p =>
    match p.kind, p.concepts with
    | .coOccurrence, [a, b] => some (a, b)
    | _, _ => none

/-- Give a memory the other side of a pair, for each side that it mentions. -/
def linkPair (mentioned : Std.HashSet String) (m : Memory) (pair : String × String) :
    Memory × Nat :=
  let (m, forth) := m.associate (if mentioned.contains pair.1 then [pair.2] else [])
  let (m, back) := m.associate (if mentioned.contains pair.2 then [pair.1] else [])
  (m, forth + back)

/-- Link a memory by one pair after the other. -/
def linkMemory (extractor : Extractor) (pairs : List (String × String)) (m : Memory) :
    Memory × Nat :=
  addUp (linkPair (Std.HashSet.ofList (extractor m.content))) m pairs

/-- Link the memory of a trace as it now stands, at all its places. -/
def linkTrace (extractor : Extractor) (pairs : List (String × String)) (s : Store) (a : Trace) :
    Store × Nat :=
  (s.modify a.number fun m => (linkMemory extractor pairs m).1,
    (linkMemory extractor pairs (s.current a).memory).2)

/-- Link the memories of a tier. -/
def linkTier (extractor : Extractor) (pairs : List (String × String)) (s : Store) (t : Tier) :
    Store × Nat :=
  addUp (linkTrace extractor pairs) s (s.traces t)

/-- Give memories that mention one side of a pair the other side, tier by tier. The number of
associations added is returned. -/
def linkMemories (extractor : Extractor) (s : Store) (patterns : List Pattern) : Store × Nat :=
  let pairs := pairsOf patterns
  if pairs.isEmpty then (s, 0) else addUp (linkTier extractor pairs) s Tier.all

/-- A knowledge entry queued for training at the revision it has. -/
structure Lesson where
  concept : String
  revision : UInt64
  training : TrainingExample

def lessonOf (e : KnowledgeEntry) : Lesson := ⟨e.concept, e.revision, e.lesson⟩

/-- Batch `index` of a run. -/
def batchOf (run : String) (index : Nat) (lessons : List Lesson) : TrainingBatch where
  id := s!"nightly-{run}-{index}"
  source := .nightly
  index
  examples := lessons.map (·.training)

def reportOf (batch : TrainingBatch) (outcome : BatchOutcome) : BatchReport :=
  ⟨batch.id, batch.index, batch.examples.length, outcome⟩

/-- Why training stops after a failed batch, if it does. -/
def stopAfter (failure : BatchFailure) (failures : Nat) : Option PhaseStatus :=
  if failure.unreachable then some (.failed failure.reason)
  else if maxRollbacks ≤ failures then some (.partially "repeated validation failure")
  else none

/-- The reports of batches that are left out. -/
def skipBatches (run : String) (index : Nat) (rest : List (List Lesson)) : List BatchReport :=
  rest.mapIdx fun i lessons => reportOf (batchOf run (index + i) lessons) .skipped

end Nightly

namespace Mind

open Nightly

/-- Find the patterns of a day. -/
def extractPhase (s : Mind) (day : List Experience) : Mind × PhaseResult × List Pattern :=
  let start := s.source.clock.time
  let (time, s) := s.now
  let patterns := Detect.all s.config.nightly time day
  (s, {
    phase := .extracting
    status := .completed
    durationMs := s.source.clock.elapsed start
    itemsProcessed := day.length
    actions := foundActions patterns }, patterns)

/-- Merge patterns into the knowledge base and into the associations of memories. -/
def integratePhase (s : Mind) (patterns : List Pattern) : Mind × PhaseResult × Integration :=
  let start := s.source.clock.time
  let merged := s.knowledge.integrate patterns s.source.clock
  let report := merged.report
  let (store, linked) := linkMemories s.extractor s.store patterns
  let s := { s with
    knowledge := merged.base
    store
    source := { s.source with clock := merged.clock } }
  (s, {
    phase := .integrating
    status := .completed
    durationMs := s.source.clock.elapsed start
    itemsProcessed := patterns.length
    actions := [
      s!"Updated {report.touched.length} knowledge entries ({report.created} new)",
      s!"{report.extended} patterns extended existing knowledge",
      s!"Resolved {report.conflicts.length} conflicts"]
      ++ if linked = 0 then [] else [s!"Added {linked} memory associations"] }, report)

/-- Note that the lessons of a batch were learned. -/
def markTrained (s : Mind) (lessons : List Lesson) : Mind :=
  { s with
    knowledge := lessons.foldl (fun base l => base.markTrained l.concept l.revision) s.knowledge }

/-- Train on one batch after the other. Training stops for good when the trainer cannot be reached,
after too many rollbacks in a row, or when the gate closes between two batches. -/
def trainBatches (run : String) :
    List (List Lesson) → Nat → Nat → Mind → Cycle Mind (PhaseStatus × List BatchReport)
  | [], _, _, s => .done s (.completed, [])
  | lessons :: rest, index, failures, s =>
    let batch := batchOf run index lessons
    let stop (s : Mind) (status : PhaseStatus) (report : BatchReport) :
        Cycle Mind (PhaseStatus × List BatchReport) :=
      .done s (status, report :: skipBatches run (index + 1) rest)
    let goOn (s : Mind) (failures : Nat) (report : BatchReport) :
        Cycle Mind (PhaseStatus × List BatchReport) :=
      if rest.isEmpty then .done s (.completed, [report])
      else
        .gate s fun s isOpen =>
          if isOpen then
            (trainBatches run rest (index + 1) failures s).bind fun s (status, reports) =>
              .done s (status, report :: reports)
          else stop s (.partially gateClosed) report
    Cycle.apply s batch fun s verdict =>
      match verdict with
      | .ok loss => goOn (s.markTrained lessons) 0 (reportOf batch (.applied loss))
      | .error failure =>
        let report := reportOf batch (.rolledBack failure.reason)
        match stopAfter failure (failures + 1) with
        | some status => stop s status report
        | none => goOn s (failures + 1) report

/-- Train on what has changed in the knowledge base. -/
def structurePhase (s : Mind) : Cycle Mind (PhaseResult × List BatchReport) :=
  let start := s.source.clock.time
  let pending := s.knowledge.pending.map lessonOf
  let batches := chunks s.config.nightly.batchSize pending
  let (run, s) := s.freshId
  (trainBatches run.simple batches 0 0 s).bind fun s (status, reports) =>
    .done s ({
      phase := .updatingStructure
      status
      durationMs := s.source.clock.elapsed start
      itemsProcessed := pending.length
      actions := [s!"Applied {countApplied reports} of {batches.length} batches"] }, reports)

/-- Bring every tier back to its capacity. -/
def boundTiers (s : Mind) : Mind × List String :=
  Tier.all.foldl (fun (s, actions) tier =>
    match s.consolidateIfOver tier with
    | (s, some result) =>
      (s, actions ++ [s!"Archived {result.archived.length} from {tier.name}"])
    | (s, none) => (s, actions)) (s, [])

/-- What a night has gathered before the day is sealed. -/
structure Night where
  day : Time.Date
  experiences : List Experience
  patterns : List Pattern
  metrics : DailyMetrics

/-- Bound the tiers and seal the day. What was sealed leaves the buffer of the day. -/
def cleanupPhase (s : Mind) (night : Night) :
    Mind × PhaseResult × Option Uid × DailyMetrics :=
  let start := s.source.clock.time
  let (s, actions) := s.boundTiers
  let metrics := { night.metrics with tierSizes := ⟨s.store.sizes⟩ }
  let ((archive, sealing), source) :=
    s.archive.sealBatch s.source night.day night.experiences night.patterns metrics
  let s := { s with archive, source }
  let result (s : Mind) (status : PhaseStatus) (actions : List String) : PhaseResult := {
    phase := .cleaningUp
    status
    durationMs := s.source.clock.elapsed start
    itemsProcessed := night.experiences.length
    actions }
  match sealing with
  | .error e => (s, result s (.failed e.message) actions, none, metrics)
  | .ok entry =>
    let (today, source) := s.source.today
    let day := s.day.clear s.zone today (night.experiences.map (·.id))
    let s := { s with day, source }
    let action := s!"Sealed {entry.date.text} with {entry.memories.length} memories and {night.experiences.length} experiences"
    (s, result s .completed (actions ++ [action]), some entry.id, entry.metrics)

end Mind

end Engram
