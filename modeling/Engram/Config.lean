import Engram.Error
import Engram.Time.Span

/-!
The configuration. Every part has a default for every field, so that a partial JSON object is a
complete configuration.
-/

namespace Engram

/-- How many memories and interactions a query takes. -/
structure RetrievalConfig where
  workingTop : Nat := 50
  episodicTop : Nat := 30
  otherTop : Nat := 20
  promptWorking : Nat := 5
  promptEpisodic : Nat := 3
  promptSemantic : Nat := 3
  contextThreshold : Float := 0.5
  contextPromptItems : Nat := 5

namespace RetrievalConfig

open Json in
instance : Codec RetrievalConfig where
  encode c := .obj [
    ("workingTopK", encode c.workingTop), ("episodicTopK", encode c.episodicTop),
    ("otherTopK", encode c.otherTop), ("promptWorking", encode c.promptWorking),
    ("promptEpisodic", encode c.promptEpisodic), ("promptSemantic", encode c.promptSemantic),
    ("contextThreshold", encode c.contextThreshold),
    ("contextPromptItems", encode c.contextPromptItems)]
  decode := record [
    "workingTopK", "episodicTopK", "otherTopK", "promptWorking", "promptEpisodic", "promptSemantic",
    "contextThreshold", "contextPromptItems"] fun f => do
    let d : RetrievalConfig := {}
    return {
      workingTop := ← f.orDefault "workingTopK" d.workingTop
      episodicTop := ← f.orDefault "episodicTopK" d.episodicTop
      otherTop := ← f.orDefault "otherTopK" d.otherTop
      promptWorking := ← f.orDefault "promptWorking" d.promptWorking
      promptEpisodic := ← f.orDefault "promptEpisodic" d.promptEpisodic
      promptSemantic := ← f.orDefault "promptSemantic" d.promptSemantic
      contextThreshold := ← f.orDefault "contextThreshold" d.contextThreshold
      contextPromptItems := ← f.orDefault "contextPromptItems" d.contextPromptItems }

/-- The number of memories that a query takes from a tier. -/
def top (c : RetrievalConfig) : Tier → Nat
  | .working => c.workingTop
  | .episodic => c.episodicTop
  | .semantic => c.otherTop
  | .procedural => c.otherTop

/-- The number of memories of a tier in a prompt; procedural ones are never placed there. -/
def promptCap (c : RetrievalConfig) : Tier → Nat
  | .working => c.promptWorking
  | .episodic => c.promptEpisodic
  | .semantic => c.promptSemantic
  | .procedural => 0

end RetrievalConfig

/-- The weights of the score by which memories stay. -/
structure ScoreWeights where
  importance : Float := 0.4
  recency : Float := 0.3
  retrieval : Float := 0.2
  associations : Float := 0.1
  /-- The age in days at which the recency term halves. -/
  halfLifeDays : Float := 7.0
  /-- The number of associations at which the association term is full. -/
  saturation : Nat := 10

open Json in
instance : Codec ScoreWeights where
  encode c := .obj [
    ("importance", encode c.importance), ("recency", encode c.recency),
    ("retrieval", encode c.retrieval), ("associations", encode c.associations),
    ("recencyHalfLifeDays", encode c.halfLifeDays),
    ("associationSaturation", encode c.saturation)]
  decode := record [
    "importance", "recency", "retrieval", "associations", "recencyHalfLifeDays",
    "associationSaturation"] fun f => do
    let d : ScoreWeights := {}
    return {
      importance := ← f.orDefault "importance" d.importance
      recency := ← f.orDefault "recency" d.recency
      retrieval := ← f.orDefault "retrieval" d.retrieval
      associations := ← f.orDefault "associations" d.associations
      halfLifeDays := ← f.orDefault "recencyHalfLifeDays" d.halfLifeDays
      saturation := ← f.orDefault "associationSaturation" d.saturation }

/-- An hour of a window, an unsigned 32-bit word. -/
structure Hour where
  val : Nat
  deriving DecidableEq, Repr

instance : Json.Codec Hour where
  encode h := .int h.val
  decode room document := (Json.decodeInt 0 (Number.twoTo 32 - 1) room document).map (⟨·.toNat⟩)

/-- The conditions of a nightly cycle and the settings of its phases. -/
structure NightlyConfig where
  windowStart : Hour := ⟨2⟩
  windowEnd : Hour := ⟨5⟩
  idleHours : Int := 2
  freeMemoryRatio : Float := 0.8
  batchSize : Nat := 8
  minOccurrences : Nat := 3
  sequenceWindow : Nat := 3
  strongRatio : Float := 0.1
  maxExperiences : Nat := 10000
  maxPending : Nat := 4096

namespace NightlyConfig

open Json in
instance : Codec NightlyConfig where
  encode c := .obj [
    ("windowStartHour", encode c.windowStart), ("windowEndHour", encode c.windowEnd),
    ("idleThresholdHours", encode c.idleHours), ("freeMemoryRatio", encode c.freeMemoryRatio),
    ("trainingBatchSize", encode c.batchSize),
    ("recurringMinOccurrences", encode c.minOccurrences),
    ("sequenceWindow", encode c.sequenceWindow),
    ("strongAssociationRatio", encode c.strongRatio),
    ("maxDayExperiences", encode c.maxExperiences), ("maxPendingArchive", encode c.maxPending)]
  decode := record [
    "windowStartHour", "windowEndHour", "idleThresholdHours", "freeMemoryRatio",
    "trainingBatchSize", "recurringMinOccurrences", "sequenceWindow", "strongAssociationRatio",
    "maxDayExperiences", "maxPendingArchive"] fun f => do
    let d : NightlyConfig := {}
    return {
      windowStart := ← f.orDefault "windowStartHour" d.windowStart
      windowEnd := ← f.orDefault "windowEndHour" d.windowEnd
      idleHours := ← f.orDefault "idleThresholdHours" d.idleHours
      freeMemoryRatio := ← f.orDefault "freeMemoryRatio" d.freeMemoryRatio
      batchSize := ← f.orDefault "trainingBatchSize" d.batchSize
      minOccurrences := ← f.orDefault "recurringMinOccurrences" d.minOccurrences
      sequenceWindow := ← f.orDefault "sequenceWindow" d.sequenceWindow
      strongRatio := ← f.orDefault "strongAssociationRatio" d.strongRatio
      maxExperiences := ← f.orDefault "maxDayExperiences" d.maxExperiences
      maxPending := ← f.orDefault "maxPendingArchive" d.maxPending }

/-- The idle time a nightly cycle asks for, if it is a length of time. -/
def idleThreshold? (c : NightlyConfig) : Option Time.Span :=
  Time.Span.ofHours? c.idleHours

/-- Whether an hour lies in the night window, which may go past midnight. -/
def inWindow (c : NightlyConfig) (hour : Nat) : Bool :=
  if c.windowStart.val ≤ c.windowEnd.val then c.windowStart.val ≤ hour && hour < c.windowEnd.val
  else c.windowStart.val ≤ hour || hour < c.windowEnd.val

end NightlyConfig

/-- The conditions of a light cycle and the settings of its batches. -/
structure BackgroundConfig where
  batteryThreshold : Float := 0.3
  idleMinutes : Int := 30
  freeMemoryRatio : Float := 0.8
  batchItems : Nat := 10
  pauseSeconds : Nat := 5
  maxBatches : Nat := 12

namespace BackgroundConfig

open Json in
instance : Codec BackgroundConfig where
  encode c := .obj [
    ("batteryThreshold", encode c.batteryThreshold),
    ("idleThresholdMinutes", encode c.idleMinutes),
    ("freeMemoryRatio", encode c.freeMemoryRatio), ("batchItems", encode c.batchItems),
    ("batchPauseSecs", encode c.pauseSeconds), ("maxBatchesPerCycle", encode c.maxBatches)]
  decode := record [
    "batteryThreshold", "idleThresholdMinutes", "freeMemoryRatio", "batchItems", "batchPauseSecs",
    "maxBatchesPerCycle"] fun f => do
    let d : BackgroundConfig := {}
    return {
      batteryThreshold := ← f.orDefault "batteryThreshold" d.batteryThreshold
      idleMinutes := ← f.orDefault "idleThresholdMinutes" d.idleMinutes
      freeMemoryRatio := ← f.orDefault "freeMemoryRatio" d.freeMemoryRatio
      batchItems := ← f.orDefault "batchItems" d.batchItems
      pauseSeconds := ← f.orDefault "batchPauseSecs" d.pauseSeconds
      maxBatches := ← f.orDefault "maxBatchesPerCycle" d.maxBatches }

/-- The idle time a light cycle asks for, if it is a length of time. -/
def idleThreshold? (c : BackgroundConfig) : Option Time.Span :=
  Time.Span.ofMinutes? c.idleMinutes

end BackgroundConfig

structure Config where
  embeddingDimension : Nat := 768
  activeSize : Nat := 8192
  tierCapacity : TierMap Nat := ⟨[]⟩
  maxPermanent : Nat := 100000
  maxContextItems : Nat := 100
  associationThreshold : Float32 := 0.8
  retrieval : RetrievalConfig := {}
  score : ScoreWeights := {}
  nightly : NightlyConfig := {}
  background : BackgroundConfig := {}

namespace Config

open Json in
instance : Codec Config where
  encode c := .obj [
    ("embeddingDimension", encode c.embeddingDimension),
    ("activeMemorySize", encode c.activeSize), ("tierCapacity", encode c.tierCapacity),
    ("maxPermanentMemories", encode c.maxPermanent),
    ("maxContextItems", encode c.maxContextItems),
    ("associationThreshold", encode c.associationThreshold),
    ("retrieval", encode c.retrieval), ("score", encode c.score),
    ("nightly", encode c.nightly), ("background", encode c.background)]
  decode := record [
    "embeddingDimension", "activeMemorySize", "tierCapacity", "maxPermanentMemories",
    "maxContextItems", "associationThreshold", "retrieval", "score", "nightly",
    "background"] fun f => do
    let d : Config := {}
    return {
      embeddingDimension := ← f.orDefault "embeddingDimension" d.embeddingDimension
      activeSize := ← f.orDefault "activeMemorySize" d.activeSize
      tierCapacity := ← f.orDefault "tierCapacity" d.tierCapacity
      maxPermanent := ← f.orDefault "maxPermanentMemories" d.maxPermanent
      maxContextItems := ← f.orDefault "maxContextItems" d.maxContextItems
      associationThreshold := ← f.orDefault "associationThreshold" d.associationThreshold
      retrieval := ← f.orDefault "retrieval" d.retrieval
      score := ← f.orDefault "score" d.score
      nightly := ← f.orDefault "nightly" d.nightly
      background := ← f.orDefault "background" d.background }

/-- The number of memories a tier may hold. -/
def capacity (c : Config) (tier : Tier) : Nat :=
  (c.tierCapacity.get? tier).getD c.activeSize

/-- The first reason not to run with a configuration, if there is one. -/
def fault? (c : Config) : Option ConfigFault :=
  if c.embeddingDimension = 0 then some .embeddingDimension
  else if c.maxContextItems = 0 then some .contextItems
  else
    match Tier.all.find? fun tier => c.capacity tier == 0 with
    | some tier => some (.tierCapacity tier)
    | none =>
      if c.nightly.batchSize = 0 || c.background.batchItems = 0 then some .batchSize
      else if c.nightly.maxExperiences = 0 || c.nightly.maxPending = 0 then some .dayBound
      else if 23 < c.nightly.windowStart.val || 24 < c.nightly.windowEnd.val then
        some .nightWindow
      else none

def validate (c : Config) : Except Error Unit :=
  match c.fault? with
  | some fault => .error (.config fault)
  | none => .ok ()

end Config

end Engram
