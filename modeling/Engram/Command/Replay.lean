import Engram.Command.Output
import Engram.Nightly.Run

/-!
Replay of a file of inputs, one JSON object on each line, with a nightly run after it.
-/

namespace Engram

/-- A host that never interrupts and whose trainer accepts every batch. -/
def Cycle.Host.unattended {σ : Type} : Cycle.Host Id σ where
  gate s := (s, true)
  device s := (s, ⟨true, 1.0, .zero, 1.0, 0⟩)
  train s _ := (s, .ok ⟨true, some 0.0, ""⟩)
  rollback s _ := s
  pause s _ := s
  wait s _ := (s, false)

namespace Command

/-- A replay in progress. -/
structure Replay where
  mind : Mind
  output : Output
  processed : Nat

namespace Replay

def say (r : Replay) (lines : List String) : Replay :=
  { r with output := r.output ++ .say lines }

def fail (r : Replay) (message : String) : Replay :=
  { r with output := r.output ++ .fail message }

/-- The collaborators of a replay, which need no model. -/
def collaborators (dimension : Nat) : Collaborators := ⟨HashEmbedding.embed dimension, Echo.generate⟩

def outcomeLines (o : ProcessOutcome) : List String :=
  ("  " ++ left 10 o.tier.name ++ " " ++ Number.fixed 2 o.importance.toFloat ++ " " ++
      shorten 60 o.output)
    :: o.consolidation.toList.map fun c =>
      s!"  {c.tier.name} over capacity: archived {c.archived.length} memories"

/-- Process one line. Blank lines and comments are passed over. -/
def line (file : String) (r : Replay) (numbered : String × Nat) : Replay :=
  let text := Text.trim numbered.1
  if r.output.failure.isSome || text = "" || text.startsWith "#" then r
  else
    match (Json.decodeText text : Option Input) with
    | none => r.fail s!"{file}:{numbered.2 + 1}: invalid input"
    | some input =>
      let collaborators := collaborators r.mind.config.embeddingDimension
      match r.mind.process collaborators input with
      | (mind, .error e) => { r with mind }.fail e.message
      | (mind, .ok outcome) =>
        { r with mind, processed := r.processed + 1 }.say (outcomeLines outcome)

def statusText : PhaseStatus → String
  | .completed => "completed"
  | .partially reason => "partial: " ++ reason
  | .skipped reason => "skipped: " ++ reason
  | .failed reason => "failed: " ++ reason

def phaseLines (p : PhaseResult) : List String :=
  s!"  {left 20 p.phase.name} {statusText p.status} ({p.durationMs}ms)"
    :: p.actions.map ("    " ++ ·)

/-- The nightly run after the inputs. -/
def nightly (r : Replay) : Replay :=
  if r.output.failure.isSome then r
  else
    let (mind, report) := r.mind.runNightly.run .unattended
    { r with mind }.say (["", "=== Nightly Integration ==="] ++ report.phases.flatMap phaseLines
      ++ ["", report.summary])

/-- Save everything at the end. -/
def save (r : Replay) : Replay :=
  if r.output.failure.isSome then r
  else
    match r.mind.persist with
    | (mind, .error e) => { r with mind }.fail e.message
    | (mind, .ok written) =>
      let pending := mind.archive.pending.length
      { r with mind }.say (s!"Persisted {written} active memories"
        :: if pending = 0 then [] else [s!"{pending} memories wait for the next nightly seal"])

/-- What a replay starts from. -/
def greeting (restored : Nat) (stats : MindStats) : List String :=
  ["=== Somnia Replay ===", s!"Restored {restored} memories from snapshots"]
    ++ (if stats.pendingArchive = 0 && stats.experiencesToday = 0 then []
      else [s!"Resumed unsealed day: {stats.pendingArchive} memories awaiting the archive, {stats.experiencesToday} experiences"])
    ++ [""]

/-- Process the lines of a file, given its content if it can be read. -/
def lines (r : Replay) (file : String) (content : Option String) : Replay :=
  match content with
  | none => r.fail ("Failed to open " ++ file)
  | some content =>
    let r := (Text.lines content).zipIdx.foldl (line file) r
    r.say ["", s!"Inputs Processed: {r.processed}"]

/-- Restore a mind, process a file, run the night unless it is to be skipped, and save. -/
def run (mind : Mind) (file : String) (content : Option String) (skipNightly : Bool) : Replay :=
  match mind.restore with
  | (mind, .error e) => ⟨mind, .fail e.message, 0⟩
  | (mind, .ok restored) =>
    let (stats, mind) := mind.stats
    let r : Replay := ⟨mind, .say (greeting restored stats), 0⟩
    let r := r.lines file content
    (if skipNightly then r else r.nightly).save

end Replay

end Command

end Engram
