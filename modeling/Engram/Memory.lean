import Engram.Uid
import Engram.Names
import Engram.Number.Order
import Engram.Tier
import Engram.Time.Codec

/-!
Memories. Everything about a memory but its use is fixed when it is made; its use is the number of
times it was retrieved and the set of concepts it is associated with.
-/

namespace Engram

/-- An embedding, in single precision. -/
abbrev Embedding := List Float32

structure Memory where
  id : Uid
  content : String
  tier : Tier
  timestamp : Time.Instant
  embedding : Embedding
  importance : Number.Double
  associations : List String
  retrievals : UInt64

namespace Memory

open Json in
instance : Codec Memory where
  encode m := .obj [
    ("id", encode m.id), ("content", encode m.content), ("tier", encode m.tier),
    ("timestamp", encode m.timestamp), ("embedding", encode m.embedding),
    ("importance", encode m.importance), ("associations", encode m.associations),
    ("retrievalCount", encode m.retrievals)]
  decode := record [
    "id", "content", "tier", "timestamp", "embedding", "importance", "associations",
    "retrievalCount"] fun f => do
    return {
      id := ← f.need "id"
      content := ← f.need "content"
      tier := ← f.need "tier"
      timestamp := ← f.need "timestamp"
      embedding := ← f.need "embedding"
      importance := ← f.need "importance"
      associations := ← f.need "associations"
      retrievals := ← f.need "retrievalCount" }

/-- A memory as the store holds it: the importance between zero and one, the associations in order
and without repetition. -/
def activate (m : Memory) : Memory :=
  { m with
    importance := m.importance.clamp 0.0 1.0
    associations := Names.ofList m.associations }

/-- Count one retrieval. -/
def retrieve (m : Memory) : Memory :=
  { m with retrievals := m.retrievals + 1 }

/-- Associate a memory with a concept, and count it if it is new. -/
def associateWith (m : Memory) (concept : String) : Memory × Nat :=
  if m.associations.contains concept then (m, 0)
  else ({ m with associations := Names.insert concept m.associations }, 1)

/-- Associate a memory with concepts, and count those that are new. -/
def associate (m : Memory) (concepts : List String) : Memory × Nat :=
  addUp associateWith m concepts

end Memory

end Engram
