import Engram.Config
import Engram.Number.Dyadic
import Engram.Similarity
import Engram.Store

/-!
Retrieval of the memories that matter for a query. A memory matters as much as its embedding is
similar to the query, weighted by its importance.
-/

namespace Engram

/-- The relevance of a memory: its similarity times its importance. A product that is undefined has
the bits of the importance if that alone is undefined, and otherwise those of an operation without a
result. -/
def relevance (similarity : Float32) (importance : Number.Double) : Number.Double :=
  let product := Number.widen similarity * importance.toFloat
  if !product.isNaN then .ofFloat product
  else if importance.isNaN && !similarity.isNaN then importance.quiet
  else .indefinite

/-- A memory of the store, compared with a query. -/
structure Ranked where
  trace : Trace
  similarity : Float32
  relevance : Number.Double

namespace Ranked

def memory (r : Ranked) : Memory := r.trace.memory

/-- The order of a ranking: more relevant, then more often retrieved, then older. -/
def order (a b : Ranked) : Ordering :=
  (b.relevance.compareTotal a.relevance).then
    ((compare b.memory.retrievals a.memory.retrievals).then
      (compare a.memory.timestamp b.memory.timestamp))

def precedes (a b : Ranked) : Bool := (a.order b).isLE

end Ranked

/-- Compare one memory with a query. -/
def compareWith (query : Embedding) (a : Trace) : Except Error Ranked := do
  let similarity ← cosineSimilarity query a.memory.embedding
  return ⟨a, similarity, relevance similarity a.memory.importance⟩

/-- Rank the memories of a list against a query; equals keep their order. -/
def rank (traces : List Trace) (query : Embedding) : Except Error (List Ranked) := do
  let ranked ← traces.mapM (compareWith query)
  return ranked.mergeSort Ranked.precedes

namespace Store

/-- Count one retrieval for every trace of a list. -/
def countRetrievals (s : Store) (traces : List Trace) : Store :=
  traces.foldl (fun s a => s.modify a.number Memory.retrieve) s

/-- The most relevant memories of each tier, tier by tier. -/
def select (s : Store) (c : RetrievalConfig) (query : Embedding) :
    Except Error (List Trace) := do
  let selected ← Tier.all.mapM fun t => do
    let ranked ← rank (s.traces t) query
    return (ranked.take (c.top t)).map (·.trace)
  return selected.flatten

/-- Retrieve the most relevant memories, tier by tier, and count the retrieval of each. All tiers
are ranked before anything is counted. -/
def retrieve (s : Store) (c : RetrievalConfig) (query : Embedding) :
    Except Error (List Memory × Store) := do
  let selected ← s.select c query
  return (selected.map (·.memory), s.countRetrievals selected)

/-- The memories of all tiers that are more similar to an embedding than a threshold. -/
def similar (s : Store) (embedding : Embedding) (threshold : Float32) :
    Except Error (List Memory) := do
  let compared ← s.all.mapM fun a => do
    return (a.memory, ← cosineSimilarity embedding a.memory.embedding)
  return (compared.filter fun p => threshold < p.2).map (·.1)

end Store

end Engram
