import Engram.Collaborator
import Engram.Prompt
import Engram.Retrieval
import Engram.Mind.Consolidation

/-!
The foreground: an input is embedded, compared with what is stored, answered, and stored as a new
memory; a question is answered from recent interactions alone. A call that fails stores nothing.
-/

namespace Engram

/-- What became of an input. -/
structure ProcessOutcome where
  output : String
  memoryId : Uid
  tier : Tier
  importance : Number.Double
  /-- The number of memories retrieved for the prompt. -/
  retrieved : Nat
  associations : List String
  /-- Present if the new memory was one too many for its tier. -/
  consolidation : Option TierConsolidation

open Json in
instance : Codec ProcessOutcome where
  encode o := .obj [
    ("output", encode o.output), ("memoryId", encode o.memoryId), ("tier", encode o.tier),
    ("importance", encode o.importance), ("retrieved", encode o.retrieved),
    ("associations", encode o.associations), ("consolidation", encode o.consolidation)]
  decode := record [
    "output", "memoryId", "tier", "importance", "retrieved", "associations",
    "consolidation"] fun f => do
    return {
      output := ← f.need "output"
      memoryId := ← f.need "memoryId"
      tier := ← f.need "tier"
      importance := ← f.need "importance"
      retrieved := ← f.need "retrieved"
      associations := ← f.need "associations"
      consolidation := ← f.maybe "consolidation" }

namespace Mind

/-- Embed a text, from the cache if it is there. -/
def embed (s : Mind) (embedder : Embedder) (text : String) : Mind × Except Error Embedding :=
  let (cache, result) := s.cache.embed s.config.embeddingDimension embedder text
  ({ s with cache }, result)

/-- The concepts of every stored memory that is similar to an embedding. -/
def discoverAssociations (s : Mind) (embedding : Embedding) : Except Error (List String) := do
  let similar ← s.store.similar embedding s.config.associationThreshold
  return Names.ofList (similar.flatMap fun m => s.extractor m.content)

/-- Ask the generator. -/
def generate (generator : Generator) (prompt : String) : Except Error String :=
  match generator prompt with
  | .ok output => .ok output
  | .error .undefined => .error .undefined
  | .error failure => .error (.generationUnavailable failure.message)

/-- Add an interaction to the window of recent ones. -/
def appendContext (s : Mind) (item : ContextItem) : Mind :=
  { s with context := (s.context.append item).1 }

/-- Add an experience to the day. -/
def recordExperience (s : Mind) (e : Experience) : Mind :=
  { s with day := s.day.record s.zone e }

/-- Store an answered input: as a memory, as a recent interaction and as an experience of the
day. -/
def remember (s : Mind) (input : Input) (output : String) (embedding : Embedding)
    (associations : List String) : Mind × Memory :=
  let tier := s.classifier input
  let (id, s) := s.freshId
  let (time, s) := s.now
  let memory : Memory := {
    id, tier, embedding, associations
    content := input.text ++ "\n" ++ output
    timestamp := time
    importance := .ofFloat (Classify.importance input)
    retrievals := 0 }
  let s := { s with store := s.store.add memory }
  let (time, s) := s.now
  let s := s.appendContext {
    input := input.text
    output
    metadata := input.metadata.insert "tier" (.str tier.name)
    timestamp := time }
  let (id, s) := s.freshId
  let (time, s) := s.now
  let s := s.recordExperience {
    id, output, tier
    input := input.text
    concepts := s.extractor (input.text ++ " " ++ output)
    timestamp := time }
  (s, memory)

/-- Bring a tier back to its capacity if it is over it. -/
def consolidateIfOver (s : Mind) (tier : Tier) : Mind × Option TierConsolidation :=
  if s.config.capacity tier < s.store.size tier then
    let (s, result) := s.consolidate tier
    (s, some result)
  else (s, none)

/-- Process an input whose embedding and answer are known. -/
def settle (s : Mind) (input : Input) (output : String) (embedding : Embedding)
    (retrieved : Nat) : Mind × Except Error ProcessOutcome :=
  match s.discoverAssociations embedding with
  | .error e => (s, .error e)
  | .ok associations =>
    let (s, memory) := s.remember input output embedding associations
    let (s, consolidation) := s.consolidateIfOver memory.tier
    (s, .ok {
      output, retrieved, associations, consolidation
      memoryId := memory.id
      tier := memory.tier
      importance := memory.importance })

/-- Process an input whose embedding is known. -/
def answer (s : Mind) (generator : Generator) (input : Input) (embedding : Embedding) :
    Mind × Except Error ProcessOutcome :=
  match s.store.retrieve s.config.retrieval embedding with
  | .error e => (s, .error e)
  | .ok (memories, store) =>
    let s := { s with store }
    match generate generator (Prompt.forInput s.config.retrieval input.text memories) with
    | .error e => (s, .error e)
    | .ok output => s.settle input output embedding memories.length

/-- Process an input: embed it, retrieve what matters for it, answer it, and store it. -/
def process (s : Mind) (collaborators : Collaborators) (input : Input) :
    Mind × Except Error ProcessOutcome :=
  match s.recordActivity.embed collaborators.embedder input.text with
  | (s, .error e) => (s, .error e)
  | (s, .ok embedding) => s.answer collaborators.generator input embedding

/-- The prompt that an input leads to. -/
def inputPrompt (s : Mind) (embedder : Embedder) (input : Input) : Except Error String := do
  let embedding ← (s.embed embedder input.text).2
  let (memories, _) ← s.store.retrieve s.config.retrieval embedding
  return Prompt.forInput s.config.retrieval input.text memories

/-- The interactions that bear on a query. -/
def relevantContext (s : Mind) (query : String) : List ScoredItem :=
  s.context.relevant query s.config.retrieval.contextThreshold

/-- The prompt for a question. -/
def questionPrompt (s : Mind) (question : String) : String :=
  let relevant := (s.relevantContext question).take s.config.retrieval.contextPromptItems
  Prompt.forQuestion question (relevant.map (·.item))

/-- Answer a question from recent interactions. -/
def query (s : Mind) (generator : Generator) (question : String) :
    Mind × Except Error String :=
  let s := s.recordActivity
  (s, generate generator (s.questionPrompt question))

/-- Log an interaction that was answered elsewhere. -/
def addContext (s : Mind) (item : ContextItem) : Mind :=
  s.recordActivity.appendContext item

end Mind

end Engram
