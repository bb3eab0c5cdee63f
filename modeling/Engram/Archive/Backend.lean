import Engram.Archive.Durable

/-!
The storage behind the archive, of either kind, with the operations it refuses at present.
-/

namespace Engram

/-- The operations of a backend. -/
inductive Operation where
  | append
  | entriesFor
  | days
  | saveSnapshot
  | loadSnapshots
  | recordRun
  | lastRun
  | savePendingDay
  | loadPendingDay
  | saveKnowledge
  | loadKnowledge
  | saveCheckpoint
  deriving DecidableEq, Repr

def Operation.name : Operation → String
  | .append => "append"
  | .entriesFor => "entries_for"
  | .days => "days"
  | .saveSnapshot => "save_snapshot"
  | .loadSnapshots => "load_snapshots"
  | .recordRun => "record_run"
  | .lastRun => "last_run"
  | .savePendingDay => "save_pending_day"
  | .loadPendingDay => "load_pending_day"
  | .saveKnowledge => "save_knowledge"
  | .loadKnowledge => "load_knowledge"
  | .saveCheckpoint => "save_checkpoint"

inductive Storage where
  | volatile (archive : VolatileArchive)
  | durable (archive : DurableArchive)

structure Backend where
  storage : Storage
  /-- The names of the operations that fail at present. -/
  refused : List String
  /-- The entries that cannot be written at present. Every write has an entry of its own, so any of
  them may fail while others go through. -/
  unwritable : ArchiveEntry → Bool := fun _ => false

namespace Backend

def ofStorage (s : Storage) : Backend := { storage := s, refused := [] }

/-- Carry out an operation unless it is refused. -/
def guarded {α : Type} (b : Backend) (op : Operation) (run : Except Error α) : Except Error α :=
  if b.refused.contains op.name then .error (.refused op.name) else run

/-- Put changed storage in place. -/
def store (b : Backend) (s : Storage) : Backend := { b with storage := s }

def append (b : Backend) (entry : ArchiveEntry) : Except Error Backend :=
  b.guarded .append <|
    if b.unwritable entry then .error (.refused Operation.append.name)
    else match b.storage with
    | .volatile a => .ok (b.store (.volatile (a.append entry)))
    | .durable a => (a.append entry).map fun a => b.store (.durable a)

def entriesFor (b : Backend) (date : Time.Date) : Except Error (List ArchiveEntry) :=
  b.guarded .entriesFor <|
    match b.storage with
    | .volatile a => .ok (a.entriesFor date)
    | .durable a => a.entriesFor date

def days (b : Backend) : Except Error (List ArchiveDay) :=
  b.guarded .days <|
    match b.storage with
    | .volatile a => .ok a.days
    | .durable a => a.days

def saveSnapshot (b : Backend) (tier : Tier) (memories : List Memory) : Except Error Backend :=
  b.guarded .saveSnapshot <|
    match b.storage with
    | .volatile a =>
      .ok (b.store (.volatile { a with snapshots := a.snapshots.put tier.name memories }))
    | .durable a => .ok (b.store (.durable (a.saveSnapshot tier memories)))

/-- The saved tiers by tag, in ascending order of the tags. -/
def loadSnapshots (b : Backend) : Except Error (List (String × List Memory)) :=
  b.guarded .loadSnapshots <|
    match b.storage with
    | .volatile a => .ok a.snapshots
    | .durable a => a.loadSnapshots

def recordRun (b : Backend) (run : RunRecord) : Except Error Backend :=
  b.guarded .recordRun <|
    match b.storage with
    | .volatile a => .ok (b.store (.volatile { a with runs := a.runs ++ [run] }))
    | .durable a => (a.recordRun run).map fun a => b.store (.durable a)

def lastRun (b : Backend) : Except Error (Option RunRecord) :=
  b.guarded .lastRun <|
    match b.storage with
    | .volatile a => .ok a.runs.getLast?
    | .durable a => a.lastRun

def savePendingDay (b : Backend) (day : PendingDay) : Except Error Backend :=
  b.guarded .savePendingDay <|
    match b.storage with
    | .volatile a => .ok (b.store (.volatile { a with pendingDay := some day }))
    | .durable a => .ok (b.store (.durable (a.savePendingDay day)))

def loadPendingDay (b : Backend) : Except Error (Option PendingDay) :=
  b.guarded .loadPendingDay <|
    match b.storage with
    | .volatile a => .ok a.pendingDay
    | .durable a => a.pendingDay?

def saveKnowledge (b : Backend) (entries : List KnowledgeEntry) : Except Error Backend :=
  b.guarded .saveKnowledge <|
    match b.storage with
    | .volatile a => .ok (b.store (.volatile { a with knowledge := entries }))
    | .durable a => .ok (b.store (.durable (a.saveKnowledge entries)))

def loadKnowledge (b : Backend) : Except Error (List KnowledgeEntry) :=
  b.guarded .loadKnowledge <|
    match b.storage with
    | .volatile a => .ok a.knowledge
    | .durable a => a.loadKnowledge

/-- Go on with a write that may have failed; a failure leaves the backend as it is. -/
def andThen (b : Backend) (write : Except Error Backend)
    (next : Backend → Backend × Except Error Unit) : Backend × Except Error Unit :=
  match write with
  | .ok b => next b
  | .error e => (b, .error e)

/-- Save tiers one after the other, up to the first that fails. -/
def saveSnapshots : Backend → List (Tier × List Memory) → Backend × Except Error Unit
  | b, [] => (b, .ok ())
  | b, (tier, memories) :: rest =>
    b.andThen (b.saveSnapshot tier memories) fun b => b.saveSnapshots rest

/-- Save a checkpoint. The tables take it as a whole or not at all; otherwise its parts are saved
one after the other, and those before a failure stay saved. -/
def saveCheckpoint (b : Backend) (c : Checkpoint) : Backend × Except Error Unit :=
  match b.storage with
  | .durable a =>
    let saved := b.store (.durable (a.saveCheckpoint c))
    b.andThen (b.guarded .saveCheckpoint (.ok saved)) fun b => (b, .ok ())
  | .volatile _ =>
    match b.saveSnapshots c.tiers with
    | (b, .error e) => (b, .error e)
    | (b, .ok ()) =>
      b.andThen (b.savePendingDay c.pendingDay) fun b =>
        b.andThen (b.saveKnowledge c.knowledge) fun b => (b, .ok ())

/-- The number of entries. -/
def entryCount (b : Backend) : Nat :=
  match b.storage with
  | .volatile a => a.entries.length
  | .durable a => a.entries.length

end Backend

end Engram
