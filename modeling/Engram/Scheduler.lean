import Engram.Nightly.Run

/-!
The scheduler of background cycles. One cycle runs at a time, and only while its gate is open; a
nightly run happens at most once per local date, and in between light cycles train on recent
interactions that no light cycle has sent yet.
-/

namespace Engram

/-- The cycle that is running, if any. -/
inductive CycleState where
  | idle
  | running (kind : CycleKind) (startedAt : Time.Instant)
  deriving DecidableEq, Repr

/-- What a light cycle did. -/
structure LightReport where
  startedAt : Time.Instant
  completedAt : Time.Instant
  batches : List BatchReport
  /-- Interactions sent to the trainer. -/
  items : Nat
  /-- Ended before everything was sent. -/
  interrupted : Bool

open Json in
instance : Codec LightReport where
  encode r := .obj [
    ("startedAt", encode r.startedAt), ("completedAt", encode r.completedAt),
    ("batches", encode r.batches), ("items", encode r.items),
    ("interrupted", encode r.interrupted)]
  decode := record ["startedAt", "completedAt", "batches", "items", "interrupted"] fun f => do
    return {
      startedAt := ← f.need "startedAt"
      completedAt := ← f.need "completedAt"
      batches := ← f.need "batches"
      items := ← f.need "items"
      interrupted := ← f.need "interrupted" }

/-- What a request to start a cycle came to. -/
inductive StartOutcome where
  | light (report : LightReport)
  | nightly (report : NightlyReport)
  | alreadyRunning
  | conditionNotMet (violations : List Violation)

structure Scheduler where
  mind : Mind
  state : CycleState
  /-- The local date of the last nightly run. -/
  lastNightly : Option Time.Date
  /-- The time of the newest interaction that a light cycle has sent. -/
  watermark : Option Time.Instant
  lightRuns : Nat
  stopped : Bool

namespace Scheduler

/-- A scheduler for a mind. The history tells when the last nightly run was. -/
def start (mind : Mind) : Scheduler where
  mind
  state := .idle
  lastNightly := mind.lastRun.map fun run => mind.zone.date run.startedAt
  watermark := none
  lightRuns := 0
  stopped := false

/-- A scheduler with the backend and the source as they are for another one. -/
def sharing (s other : Scheduler) : Scheduler :=
  { s with mind := { s.mind.setBackend other.mind.backend with source := other.mind.source } }

def stop (s : Scheduler) : Scheduler := { s with stopped := true }

/-- A scheduler whose cycle is over, however it ended. -/
def release (s : Scheduler) : Scheduler := { s with state := .idle }

/-- The mind of a scheduler, as a part of it. -/
def mindPart : Cycle.Part Scheduler Mind where
  get s := s.mind
  put mind s := { s with mind }

/-- Whether a cycle may go on: nobody has asked to stop, and the gate is open for the device as it
is now. -/
def keepOn {α : Type} (kind : CycleKind) (s : Scheduler)
    (next : Scheduler → Bool → Cycle Scheduler α) : Cycle Scheduler α :=
  if s.stopped then next s false
  else .device s fun s device => next s (Gate.isOpen s.mind.config kind device)

def now (s : Scheduler) : Time.Instant × Scheduler :=
  let (time, mind) := s.mind.now
  (time, { s with mind })

/-- Read the local date. -/
def today (s : Scheduler) : Time.Date × Scheduler :=
  let (date, source) := s.mind.source.today
  (date, { s with mind := { s.mind with source } })

/-- A nightly run. -/
def nightlyCycle (s : Scheduler) : Cycle Scheduler StartOutcome :=
  (s.mind.runNightly.within mindPart (keepOn .nightly) s).bind fun s report =>
    let (date, s) := s.today
    .done { s with lastNightly := some date } (.nightly report)

/-- An interaction as a training example. -/
def contextExample (item : ContextItem) : TrainingExample where
  input := item.input
  output := item.output
  metadata := item.metadata.insert "timestamp" (.str item.timestamp.offsetText)

/-- Batch `index` of a light cycle. -/
def lightBatch (run index : Nat) (items : List ContextItem) : TrainingBatch where
  id := s!"light-{run}-{index}"
  source := .background
  index
  examples := items.map contextExample

/-- What the batches of a light cycle came to. -/
structure LightBatches where
  reports : List BatchReport
  items : Nat
  interrupted : Bool

/-- Move the watermark to the last of some items. -/
def advance (s : Scheduler) (items : List ContextItem) : Scheduler :=
  match items.getLast? with
  | some last => { s with watermark := some last.timestamp }
  | none => s

/-- Send one batch after the other, with a pause and a look at the gate in between. -/
def sendBatches (run : Nat) :
    List (List ContextItem) → Nat → Scheduler → Cycle Scheduler LightBatches
  | [], _, s => .done s ⟨[], 0, false⟩
  | items :: rest, index, s =>
    let send (s : Scheduler) : Cycle Scheduler LightBatches :=
      let batch := lightBatch run index items
      let report (outcome : BatchOutcome) : BatchReport :=
        ⟨batch.id, index, items.length, outcome⟩
      let goOn (s : Scheduler) (outcome : BatchOutcome) : Cycle Scheduler LightBatches :=
        (sendBatches run rest (index + 1) (s.advance items)).bind fun s later =>
          .done s ⟨report outcome :: later.reports, items.length + later.items, later.interrupted⟩
      Cycle.apply s batch fun s verdict =>
        match verdict with
        | .ok loss => goOn s (.applied loss)
        | .error failure =>
          let outcome := .rolledBack failure.reason
          if failure.unreachable then
            .done (s.advance items) ⟨[report outcome], items.length, true⟩
          else goOn s outcome
    if index = 0 then send s
    else
      .pause s (min (1000 * s.mind.config.background.pauseSeconds) Cycle.longestPause) fun s =>
        keepOn .light s fun s isOpen => if isOpen then send s else .done s ⟨[], 0, true⟩

/-- Train on the interactions that are newer than the watermark, up to a number of batches. -/
def lightCycle (s : Scheduler) : Cycle Scheduler StartOutcome :=
  let (startedAt, s) := s.now
  let config := s.mind.config.background
  let s := { s with lightRuns := s.lightRuns + 1 }
  let items := s.mind.context.since s.watermark
  let batches := (chunks config.batchItems items).take config.maxBatches
  (sendBatches s.lightRuns batches 0 s).bind fun s sent =>
    let (completedAt, s) := s.now
    .done s (.light ⟨startedAt, completedAt, sent.reports, sent.items, sent.interrupted⟩)

/-- Start a cycle if none is running and its gate is open. -/
def runCycle (s : Scheduler) (kind : CycleKind) : Cycle Scheduler (Except Error StartOutcome) :=
  match s.state with
  | .running _ _ => .done s (.ok .alreadyRunning)
  | .idle =>
    .device s fun s device =>
      match Gate.violations s.mind.config kind device with
      | .error e => .done s (.error e)
      | .ok [] =>
        let (time, s) := s.now
        let s := { s with state := .running kind time }
        let cycle := match kind with
          | .nightly => s.nightlyCycle
          | .light => s.lightCycle
        cycle.bind fun s outcome => .done s.release (.ok outcome)
      | .ok violations => .done s (.ok (.conditionNotMet violations))

/-- One decision: a nightly run if there was none today and its gate is open, else a light
cycle. -/
def tick (s : Scheduler) : Cycle Scheduler (Except Error StartOutcome) :=
  let (date, s) := s.today
  if s.lastNightly = some date then s.runCycle .light
  else
    (s.runCycle .nightly).bind fun s outcome =>
      match outcome with
      | .ok (.conditionNotMet _) => s.runCycle .light
      | outcome => .done s outcome

/-- Decide again and again, `interval` milliseconds apart, until a stop is asked for or a decision
fails. At most `rounds` decisions are made. -/
def poll (interval : Nat) : Nat → Scheduler → Cycle Scheduler (Except Error Unit)
  | 0, s => .done s (.ok ())
  | rounds + 1, s =>
    .wait s (min interval Cycle.longestPause) fun s stop =>
      if stop then .done s (.ok ())
      else
        s.tick.bind fun s outcome =>
          match outcome with
          | .error e => .done s (.error e)
          | .ok _ => if s.stopped then .done s (.ok ()) else poll interval rounds s

/-- One line that shows a scheduler's state. -/
def debugText (s : Scheduler) : String :=
  let state := match s.state with
    | .idle => "Idle"
    | .running kind startedAt =>
      s!"Running \x7b kind: {kind.name.capitalize}, started_at: {startedAt.text} \x7d"
  let lastNightly := match s.lastNightly with
    | some date => "Some(" ++ date.text ++ ")"
    | none => "None"
  s!"BackgroundScheduler \x7b state: {state}, last_nightly: {lastNightly} \x7d"

end Scheduler

end Engram
