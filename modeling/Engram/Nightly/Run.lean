import Engram.Nightly.Phases
import Engram.Mind.Checkpoint

/-!
The nightly run. The gate is asked before the second and the third phase and between batches; once
it is closed the run goes straight to the last phase, which always runs. A run never fails: what
goes wrong is part of its report.
-/

namespace Engram.Mind

open Nightly

/-- What is known of a run after its first three phases. -/
structure Progress where
  startedAt : Time.Instant
  night : Night
  phases : List PhaseResult
  batches : List BatchReport

/-- The counters of the patterns of a day. -/
def patternMetrics (day : List Experience) (patterns : List Pattern) : DailyMetrics where
  experiences := day.length
  recurringPatterns := patterns.countP (·.kind == .recurring)
  sequentialPatterns := patterns.countP (·.kind == .sequential)
  coOccurrencePatterns := patterns.countP (·.kind == .coOccurrence)

/-- Clean up and report. -/
def finishNight (s : Mind) (p : Progress) : Mind × NightlyReport :=
  let metrics := { p.night.metrics with
    batchesApplied := countApplied p.batches
    batchesRolledBack := countRolledBack p.batches }
  let (s, cleanup, archiveEntry, metrics) := s.cleanupPhase { p.night with metrics }
  let (completedAt, s) := s.now
  let phases := p.phases ++ [cleanup]
  (s, {
    startedAt := p.startedAt
    completedAt
    phases
    batches := p.batches
    patterns := p.night.patterns.length
    archiveEntry
    metrics
    completed := archiveEntry.isSome && phases.all (·.status.isCompleted) })

/-- The phases from the third on. -/
def updateAndFinish (p : Progress) (s : Mind) (isOpen : Bool) : Cycle Mind NightlyReport :=
  let finish (s : Mind) (p : Progress) : Cycle Mind NightlyReport :=
    let (s, report) := s.finishNight p
    .done s report
  if isOpen then
    s.structurePhase.bind fun s (result, batches) =>
      finish s { p with phases := p.phases ++ [result], batches }
  else
    finish s { p with phases := p.phases ++ [.skipped .updatingStructure gateClosed] }

/-- The phases from the second on. -/
def integrateAndFinish (p : Progress) (s : Mind) (isOpen : Bool) : Cycle Mind NightlyReport :=
  if isOpen then
    let (s, result, report) := s.integratePhase p.night.patterns
    let metrics := { p.night.metrics with
      knowledgeTouched := report.touched.length
      conflictsResolved := report.conflicts.length }
    let p := { p with night := { p.night with metrics }, phases := p.phases ++ [result] }
    .gate s (updateAndFinish p)
  else
    let p := { p with phases := p.phases ++ [.skipped .integrating gateClosed] }
    updateAndFinish p s false

/-- The four phases. -/
def nightlyPhases (s : Mind) : Cycle Mind NightlyReport :=
  let (startedAt, s) := s.now
  let day := s.day.day
  let experiences := s.day.experiences
  let (s, extracted, patterns) := s.extractPhase experiences
  let night : Night := ⟨day, experiences, patterns, patternMetrics experiences patterns⟩
  .gate s (integrateAndFinish ⟨startedAt, night, [extracted], []⟩)

/-- Record a run in the history. A failure to record it is let pass. -/
def recordRun (s : Mind) (report : NightlyReport) : Mind :=
  let (id, s) := s.freshId
  let run : RunRecord :=
    ⟨id, report.startedAt, report.completedAt, report.completed, report.summary⟩
  match s.backend.recordRun run with
  | .ok backend => s.setBackend backend
  | .error _ => s

/-- A nightly run, with its record in the history and a checkpoint after it. -/
def runNightly (s : Mind) : Cycle Mind NightlyReport :=
  s.nightlyPhases.bind fun s report => .done (s.recordRun report).persist.1 report

/-- The last nightly run in the history, as far as it can be read. -/
def lastRun (s : Mind) : Option RunRecord :=
  match s.backend.lastRun with
  | .ok run => run
  | .error _ => none

end Engram.Mind
