import Engram.Knowledge
import Engram.Memory
import Engram.Pattern

/-!
What the archive keeps: one entry for each sealed day, a record of each nightly run, and, until it
is sealed, the day that is still pending.
-/

namespace Engram

/-- Counters of one nightly run. -/
structure DailyMetrics where
  experiences : Nat := 0
  recurringPatterns : Nat := 0
  sequentialPatterns : Nat := 0
  coOccurrencePatterns : Nat := 0
  knowledgeTouched : Nat := 0
  conflictsResolved : Nat := 0
  batchesApplied : Nat := 0
  batchesRolledBack : Nat := 0
  memoriesArchived : Nat := 0
  tierSizes : TierMap Nat := ⟨[]⟩

open Json in
instance : Codec DailyMetrics where
  encode m := .obj [
    ("experiences", encode m.experiences), ("recurringPatterns", encode m.recurringPatterns),
    ("sequentialPatterns", encode m.sequentialPatterns),
    ("coOccurrencePatterns", encode m.coOccurrencePatterns),
    ("knowledgeTouched", encode m.knowledgeTouched),
    ("conflictsResolved", encode m.conflictsResolved),
    ("batchesApplied", encode m.batchesApplied),
    ("batchesRolledBack", encode m.batchesRolledBack),
    ("memoriesArchived", encode m.memoriesArchived), ("tierSizes", encode m.tierSizes)]
  decode := record [
    "experiences", "recurringPatterns", "sequentialPatterns", "coOccurrencePatterns",
    "knowledgeTouched", "conflictsResolved", "batchesApplied", "batchesRolledBack",
    "memoriesArchived", "tierSizes"] fun f => do
    let d : DailyMetrics := {}
    return {
      experiences := ← f.orDefault "experiences" d.experiences
      recurringPatterns := ← f.orDefault "recurringPatterns" d.recurringPatterns
      sequentialPatterns := ← f.orDefault "sequentialPatterns" d.sequentialPatterns
      coOccurrencePatterns := ← f.orDefault "coOccurrencePatterns" d.coOccurrencePatterns
      knowledgeTouched := ← f.orDefault "knowledgeTouched" d.knowledgeTouched
      conflictsResolved := ← f.orDefault "conflictsResolved" d.conflictsResolved
      batchesApplied := ← f.orDefault "batchesApplied" d.batchesApplied
      batchesRolledBack := ← f.orDefault "batchesRolledBack" d.batchesRolledBack
      memoriesArchived := ← f.orDefault "memoriesArchived" d.memoriesArchived
      tierSizes := ← f.orDefault "tierSizes" d.tierSizes }

/-- A sealed day. -/
structure ArchiveEntry where
  id : Uid
  date : Time.Date
  createdAt : Time.Instant
  /-- In the order in which they were demoted. -/
  memories : List Memory
  experiences : List Experience
  patterns : List Pattern
  metrics : DailyMetrics

open Json in
instance : Codec ArchiveEntry where
  encode e := .obj [
    ("id", encode e.id), ("date", encode e.date), ("createdAt", encode e.createdAt),
    ("archivedMemories", encode e.memories), ("experiences", encode e.experiences),
    ("patterns", encode e.patterns), ("dailyMetrics", encode e.metrics)]
  decode := record [
    "id", "date", "createdAt", "archivedMemories", "experiences", "patterns",
    "dailyMetrics"] fun f => do
    return {
      id := ← f.need "id"
      date := ← f.need "date"
      createdAt := ← f.need "createdAt"
      memories := ← f.need "archivedMemories"
      experiences := ← f.need "experiences"
      patterns := ← f.need "patterns"
      metrics := ← f.need "dailyMetrics" }

/-- How much the archive holds for a date. -/
structure ArchiveDay where
  date : Time.Date
  entries : Nat
  memories : Nat
  deriving DecidableEq, Repr

open Json in
instance : Codec ArchiveDay where
  encode d := .obj [
    ("date", encode d.date), ("entries", encode d.entries), ("memories", encode d.memories)]
  decode := record ["date", "entries", "memories"] fun f => do
    return {
      date := ← f.need "date"
      entries := ← f.need "entries"
      memories := ← f.need "memories" }

/-- A nightly run, complete or cut short. -/
structure RunRecord where
  id : Uid
  startedAt : Time.Instant
  completedAt : Time.Instant
  completed : Bool
  summary : String
  deriving DecidableEq, Repr

open Json in
instance : Codec RunRecord where
  encode r := .obj [
    ("id", encode r.id), ("startedAt", encode r.startedAt),
    ("completedAt", encode r.completedAt), ("completed", encode r.completed),
    ("summary", encode r.summary)]
  decode := record ["id", "startedAt", "completedAt", "completed", "summary"] fun f => do
    return {
      id := ← f.need "id"
      startedAt := ← f.need "startedAt"
      completedAt := ← f.need "completedAt"
      completed := ← f.need "completed"
      summary := ← f.need "summary" }

/-- What has gathered since the last seal. -/
structure PendingDay where
  savedAt : Time.Instant
  day : Time.Date
  memories : List Memory
  experiences : List Experience

namespace PendingDay

open Json in
instance : Codec PendingDay where
  encode d := .obj [
    ("savedAt", encode d.savedAt), ("day", encode d.day), ("memories", encode d.memories),
    ("experiences", encode d.experiences)]
  decode := record ["savedAt", "day", "memories", "experiences"] fun f => do
    return {
      savedAt := ← f.need "savedAt"
      day := ← f.need "day"
      memories := ← f.need "memories"
      experiences := ← f.need "experiences" }

def isEmpty (d : PendingDay) : Bool := d.memories.isEmpty && d.experiences.isEmpty

def size (d : PendingDay) : Nat := d.memories.length + d.experiences.length

/-- Remove what an entry has sealed. -/
def prune (d : PendingDay) (entry : ArchiveEntry) : PendingDay :=
  let memories := entry.memories.map (·.id)
  let experiences := entry.experiences.map (·.id)
  { d with
    memories := d.memories.filter fun m => !memories.contains m.id
    experiences := d.experiences.filter fun e => !experiences.contains e.id }

end PendingDay

/-- What is saved together, so that a restart resumes where the mind stopped. -/
structure Checkpoint where
  tiers : List (Tier × List Memory)
  pendingDay : PendingDay
  knowledge : List KnowledgeEntry

end Engram
