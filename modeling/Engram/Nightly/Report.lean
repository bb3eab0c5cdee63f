import Engram.Archive.Entry
import Engram.Training

/-!
What a nightly run reports: one result for each phase, the batches it trained on, and its counters.
-/

namespace Engram

inductive NightlyPhase where
  | idle
  | extracting
  | integrating
  | updatingStructure
  | cleaningUp
  deriving DecidableEq, Repr

namespace NightlyPhase

def all : List NightlyPhase := [.idle, .extracting, .integrating, .updatingStructure, .cleaningUp]

/-- The name of a phase in records. -/
def key : NightlyPhase → String
  | .idle => "idle"
  | .extracting => "extracting"
  | .integrating => "integrating"
  | .updatingStructure => "updatingStructure"
  | .cleaningUp => "cleaningUp"

/-- The name of a phase in summaries. -/
def name : NightlyPhase → String
  | .updatingStructure => "updating_structure"
  | .cleaningUp => "cleaning_up"
  | phase => phase.key

instance : Json.Codec NightlyPhase where
  encode p := .str p.key
  decode room document := (Json.decodeName room document).bind fun s => all.find? (·.key == s)

end NightlyPhase

inductive PhaseStatus where
  | completed
  /-- Ran part of its work. -/
  | partially (reason : String)
  /-- Did not run. -/
  | skipped (reason : String)
  | failed (reason : String)
  deriving DecidableEq, Repr

namespace PhaseStatus

/-- The fields besides the tag. -/
def parts (tag : String) : List String := if tag = "completed" then [] else ["reason"]

open Json in
instance : Codec PhaseStatus where
  encode
    | .completed => .obj [("status", .str "completed")]
    | .partially reason => .obj [("status", .str "partial"), ("reason", .str reason)]
    | .skipped reason => .obj [("status", .str "skipped"), ("reason", .str reason)]
    | .failed reason => .obj [("status", .str "failed"), ("reason", .str reason)]
  decode := tagged "status" parts fun f => do
    let tag ← f.tag "status"
    if tag = "completed" then return .completed
    else if tag = "partial" then return .partially (← f.need "reason")
    else if tag = "skipped" then return .skipped (← f.need "reason")
    else if tag = "failed" then return .failed (← f.need "reason")
    else none

def isCompleted (s : PhaseStatus) : Bool := s == .completed

/-- The word for a status in summaries. -/
def word : PhaseStatus → String
  | .completed => "ok"
  | .partially _ => "partial"
  | .skipped _ => "skipped"
  | .failed _ => "failed"

end PhaseStatus

structure PhaseResult where
  phase : NightlyPhase
  status : PhaseStatus
  durationMs : Nat
  itemsProcessed : Nat
  actions : List String

namespace PhaseResult

open Json in
instance : Codec PhaseResult where
  encode r := .obj [
    ("phase", encode r.phase), ("status", encode r.status), ("durationMs", encode r.durationMs),
    ("itemsProcessed", encode r.itemsProcessed), ("actions", encode r.actions)]
  decode := record ["phase", "status", "durationMs", "itemsProcessed", "actions"] fun f => do
    return {
      phase := ← f.need "phase"
      status := ← f.need "status"
      durationMs := ← f.need "durationMs"
      itemsProcessed := ← f.need "itemsProcessed"
      actions := ← f.need "actions" }

/-- The result of a phase that did not run. -/
def skipped (phase : NightlyPhase) (reason : String) : PhaseResult :=
  ⟨phase, .skipped reason, 0, 0, []⟩

end PhaseResult

structure NightlyReport where
  startedAt : Time.Instant
  completedAt : Time.Instant
  phases : List PhaseResult
  batches : List BatchReport
  patterns : Nat
  archiveEntry : Option Uid
  metrics : DailyMetrics
  /-- Every phase completed and the day was sealed. -/
  completed : Bool

/-- The number of applied batches. -/
def countApplied (batches : List BatchReport) : Nat :=
  batches.countP (·.outcome.isApplied)

/-- The number of batches that were rolled back. -/
def countRolledBack (batches : List BatchReport) : Nat :=
  batches.countP (·.outcome.isRolledBack)

namespace NightlyReport

open Json in
instance : Codec NightlyReport where
  encode r := .obj [
    ("startedAt", encode r.startedAt), ("completedAt", encode r.completedAt),
    ("phases", encode r.phases), ("batches", encode r.batches), ("patterns", encode r.patterns),
    ("archiveEntry", encode r.archiveEntry), ("metrics", encode r.metrics),
    ("completed", encode r.completed)]
  decode := record [
    "startedAt", "completedAt", "phases", "batches", "patterns", "archiveEntry", "metrics",
    "completed"] fun f => do
    return {
      startedAt := ← f.need "startedAt"
      completedAt := ← f.need "completedAt"
      phases := ← f.need "phases"
      batches := ← f.need "batches"
      patterns := ← f.need "patterns"
      archiveEntry := ← f.maybe "archiveEntry"
      metrics := ← f.need "metrics"
      completed := ← f.need "completed" }

/-- The first result of a phase. -/
def phase? (r : NightlyReport) (phase : NightlyPhase) : Option PhaseResult :=
  r.phases.find? (·.phase == phase)

/-- One line about a run. -/
def summary (r : NightlyReport) : String :=
  let phases := " ".intercalate (r.phases.map fun p => p.phase.name ++ "=" ++ p.status.word)
  let applied := countApplied r.batches
  s!"{r.patterns} patterns, {applied}/{r.batches.length} batches applied, {r.metrics.memoriesArchived} archived [{phases}]"

end NightlyReport

end Engram
