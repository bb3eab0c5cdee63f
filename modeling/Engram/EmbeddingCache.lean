import Engram.Collaborator
import Engram.Error

/-!
Embedding with a memory for recent texts. An embedding is kept only if it has the configured width
and finite components, so a cached answer is always one that a fresh call could have given.
-/

namespace Engram

/-- Recent texts with their embeddings, the most recently used first, and the number of calls that
reached the embedder. -/
structure EmbeddingCache where
  entries : List (String × Embedding)
  calls : Nat

namespace EmbeddingCache

/-- The number of embeddings kept. -/
def capacity : Nat := 100

def empty : EmbeddingCache := ⟨[], 0⟩

/-- Put an embedding first, and drop the least recently used one if there are too many. -/
def put (c : EmbeddingCache) (text : String) (embedding : Embedding) : EmbeddingCache :=
  { c with entries := ((text, embedding) :: c.entries.filter (·.1 ≠ text)).take capacity }

/-- Check what an embedder gave. -/
def check (dimension : Nat) : Except CollaboratorFailure Embedding → Except Error Embedding
  | .error .undefined => .error .undefined
  | .error failure => .error (.embeddingUnavailable failure.message)
  | .ok embedding =>
    if embedding.length ≠ dimension then .error (.dimensionMismatch dimension embedding.length)
    else if embedding.all Float32.isFinite then .ok embedding
    else .error (.embeddingUnavailable "embedder returned non-finite components")

/-- Embed a text, from the cache if it is there. -/
def embed (c : EmbeddingCache) (dimension : Nat) (embedder : Embedder) (text : String) :
    EmbeddingCache × Except Error Embedding :=
  match c.entries.lookup text with
  | some embedding => (c.put text embedding, .ok embedding)
  | none =>
    let asked := { c with calls := c.calls + 1 }
    match check dimension (embedder text) with
    | .ok embedding => (asked.put text embedding, .ok embedding)
    | .error e => (asked, .error e)

end EmbeddingCache

end Engram
