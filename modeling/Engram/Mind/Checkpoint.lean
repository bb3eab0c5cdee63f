import Engram.Mind.Basic

/-!
Persistence. A checkpoint holds the tiers, the day that is not sealed yet and the knowledge base. A
mind restored from it goes on where the other one stopped; a checkpoint that does not fit changes
nothing.
-/

namespace Engram.Mind

/-- The tiers as they are. -/
def readTiers (s : Mind) : List (Tier × List Memory) :=
  Tier.all.map fun t => (t, s.store.memories t)

/-- How many memories some tiers hold. -/
def countSaved (tiers : List (Tier × List Memory)) : Nat :=
  tiers.foldl (fun n tier => n + tier.2.length) 0

/-- The pending day as it is. -/
def readPendingDay (s : Mind) (now : Time.Instant) : PendingDay where
  savedAt := now
  day := s.day.day
  memories := s.archive.pending
  experiences := s.day.experiences

/-- Save a checkpoint. The number of memories in the tiers is returned. The tiers are read before
the pending batch. -/
def persist (s : Mind) : Mind × Except Error Nat :=
  let tiers := s.readTiers
  let (time, s) := s.now
  let checkpoint : Checkpoint := ⟨tiers, s.readPendingDay time, s.knowledge.entries⟩
  match s.backend.saveCheckpoint checkpoint with
  | (backend, .error e) => (s.setBackend backend, .error e)
  | (backend, .ok ()) => (s.setBackend backend, .ok (countSaved tiers))

/-- Check a memory that was saved under a tag. -/
def checkSaved (dimension : Nat) (tag : String) (tier : Tier) (m : Memory) : Except Error Unit :=
  if m.embedding.length ≠ dimension then .error (.dimensionMismatch dimension m.embedding.length)
  else if m.tier ≠ tier then
    .error (.invalidTier (m.tier.name ++ " memory " ++ m.id.text ++ " stored under " ++ tag))
  else .ok ()

/-- Check what was saved under a tag. -/
def checkSnapshot (dimension : Nat) (saved : String × List Memory) :
    Except Error (Tier × List Memory) := do
  let tier ← Tier.parse saved.1
  saved.2.forM (checkSaved dimension saved.1 tier)
  return (tier, saved.2)

/-- Check the memories of a saved day. -/
def checkPendingDay (dimension : Nat) (day : PendingDay) : Except Error Unit :=
  match day.memories.find? fun m => m.embedding.length != dimension with
  | some m => .error (.dimensionMismatch dimension m.embedding.length)
  | none => .ok ()

/-- A checkpoint that was read and checked. -/
structure Loaded where
  tiers : List (Tier × List Memory)
  pendingDay : Option PendingDay
  knowledge : List KnowledgeEntry

/-- Read the saved checkpoint and check all of it. -/
def load (s : Mind) : Except Error Loaded := do
  let tiers ← (← s.backend.loadSnapshots).mapM (checkSnapshot s.config.embeddingDimension)
  let pendingDay ← s.backend.loadPendingDay
  pendingDay.forM (checkPendingDay s.config.embeddingDimension)
  let knowledge ← s.backend.loadKnowledge
  return ⟨tiers, pendingDay, knowledge⟩

/-- Put saved tiers in place of the present ones. -/
def adoptTiers (s : Mind) (tiers : List (Tier × List Memory)) : Mind :=
  { s with
    store := tiers.foldl (fun store (tier, memories) =>
      store.replace tier (memories.map Memory.activate)) s.store }

/-- Take up a saved day, except for memories that are active again. -/
def adoptPendingDay (s : Mind) (active : List Uid) (day : PendingDay) : Mind :=
  let waiting := day.memories.filter fun m => !active.contains m.id
  let (today, source) := s.source.today
  { s with
    archive := (s.archive.restorePending waiting).1
    day := s.day.restore s.zone today day.day day.experiences
    source }

/-- Take up a checkpoint. -/
def adopt (s : Mind) (loaded : Loaded) : Mind :=
  let active := loaded.tiers.flatMap fun (_, memories) => memories.map (·.id)
  let s := s.adoptTiers loaded.tiers
  let s := match loaded.pendingDay with
    | some day => s.adoptPendingDay active day
    | none => s
  { s with knowledge := (s.knowledge.restore loaded.knowledge).1 }

/-- Replace the tiers by those of the saved checkpoint and take up its day and its knowledge. The
number of memories loaded into the tiers is returned. -/
def restore (s : Mind) : Mind × Except Error Nat :=
  match s.load with
  | .error e => (s, .error e)
  | .ok loaded => (s.adopt loaded, .ok (countSaved loaded.tiers))

end Engram.Mind
