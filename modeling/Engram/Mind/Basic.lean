import Engram.Activity
import Engram.Archive.Log
import Engram.Config
import Engram.Context
import Engram.EmbeddingCache
import Engram.Input
import Engram.Knowledge
import Engram.Store

/-!
The mind: everything it holds, as one value.
-/

namespace Engram

structure Mind where
  config : Config
  classifier : Classifier
  extractor : Extractor
  store : Store
  context : ContextBuffer
  archive : ArchiveLog
  cache : EmbeddingCache
  day : DayBuffer
  knowledge : KnowledgeBase
  activity : Activity
  source : Source

/-- How full a mind is. -/
structure MindStats where
  tiers : TierMap Nat
  contextItems : Nat
  pendingArchive : Nat
  experiencesToday : Nat
  knowledgeEntries : Nat
  knowledgePendingTraining : Nat
  activity : ActivityStats

open Json in
instance : Codec MindStats where
  encode s := .obj [
    ("tiers", encode s.tiers), ("contextItems", encode s.contextItems),
    ("pendingArchive", encode s.pendingArchive), ("experiencesToday", encode s.experiencesToday),
    ("knowledgeEntries", encode s.knowledgeEntries),
    ("knowledgePendingTraining", encode s.knowledgePendingTraining),
    ("activity", encode s.activity)]
  decode := record [
    "tiers", "contextItems", "pendingArchive", "experiencesToday", "knowledgeEntries",
    "knowledgePendingTraining", "activity"] fun f => do
    return {
      tiers := ← f.need "tiers"
      contextItems := ← f.need "contextItems"
      pendingArchive := ← f.need "pendingArchive"
      experiencesToday := ← f.need "experiencesToday"
      knowledgeEntries := ← f.need "knowledgeEntries"
      knowledgePendingTraining := ← f.need "knowledgePendingTraining"
      activity := ← f.need "activity" }

namespace Mind

/-- An empty mind over a backend, whatever its configuration. -/
def start (config : Config) (backend : Backend) (source : Source) : Mind :=
  let (today, source) := source.today
  let (now, source) := source.now
  { config
    classifier := Classify.tier
    extractor := Concept.keywords
    store := .empty
    context := .empty config.maxContextItems
    archive := .empty backend config.maxPermanent config.nightly.maxPending
    cache := .empty
    day := .empty config.nightly.maxExperiences today
    knowledge := .empty
    activity := .start now
    source }

/-- An empty mind, if the configuration is one to run with. -/
def create (config : Config) (backend : Backend) (source : Source) : Except Error Mind := do
  config.validate
  return start config backend source

/-- Put a changed backend in place. -/
def setBackend (s : Mind) (backend : Backend) : Mind :=
  { s with archive := { s.archive with backend } }

def backend (s : Mind) : Backend := s.archive.backend

/-- An empty mind in place of another one: with what it was given, over the same backend. -/
def restart (s : Mind) (config : Config) : Except Error Mind := do
  let fresh ← create config s.backend s.source
  return { fresh with classifier := s.classifier, extractor := s.extractor }

def zone (s : Mind) : Time.Zone := s.source.clock.zone

/-- Read the clock. -/
def now (s : Mind) : Time.Instant × Mind :=
  let (time, source) := s.source.now
  (time, { s with source })

/-- Draw an identifier. -/
def freshId (s : Mind) : Uid × Mind :=
  let (id, source) := s.source.freshId
  (id, { s with source })

/-- Note a foreground call. -/
def recordActivity (s : Mind) : Mind :=
  let (time, s) := s.now
  { s with activity := s.activity.record time }

/-- The time since the last foreground call. -/
def idle (s : Mind) : Time.Span × Mind :=
  let (time, s) := s.now
  (s.activity.idle time, s)

def stats (s : Mind) : MindStats × Mind :=
  let (time, s) := s.now
  ({ tiers := ⟨s.store.sizes⟩
     contextItems := s.context.items.length
     pendingArchive := s.archive.pending.length
     experiencesToday := s.day.experiences.length
     knowledgeEntries := s.knowledge.entries.length
     knowledgePendingTraining := s.knowledge.pending.length
     activity := s.activity.stats time }, s)

/-- One line that shows a mind's size. -/
def debugText (s : Mind) : String :=
  let size (p : Tier × Nat) : String := s!"({p.1.name.capitalize}, {p.2})"
  let sizes := ", ".intercalate (s.store.sizes.map size)
  s!"MemorySystem \x7b tiers: [{sizes}], archive: ArchiveStore \x7b pending: {s.archive.pending.length}, recent_capacity: {s.archive.recentCapacity}, max_pending: {s.archive.maxPending} \x7d \x7d"

end Mind

end Engram
