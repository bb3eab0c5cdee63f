import Engram.Error
import Engram.Memory

/-!
Cosine similarity in single precision. Sums run from left to right, so the result is the same on
every machine.
-/

namespace Engram

/-- The sums of a comparison: of the products of the components, and of their squares on each
side. -/
structure CosineSums where
  dot : Float32
  left : Float32
  right : Float32

/-- Add the components of two embeddings to the sums so far. -/
def addComponents (dot left right : Float32) : Embedding → Embedding → CosineSums
  | x :: a, y :: b => addComponents (dot + x * y) (left + x * x) (right + y * y) a b
  | _, _ => ⟨dot, left, right⟩

def cosineSums (a b : Embedding) : CosineSums := addComponents 0 0 0 a b

/-- The cosine of the angle between two embeddings, from minus one to one. An embedding without
length is similar to nothing. -/
def cosineSimilarity (a b : Embedding) : Except Error Float32 :=
  if a.length ≠ b.length then .error (.dimensionMismatch a.length b.length)
  else
    let sums := cosineSums a b
    let scale := Float32.sqrt (sums.left * sums.right)
    if 0 < scale then
      let cosine := sums.dot / scale
      let cosine := if cosine < -1 then -1 else cosine
      .ok (if 1 < cosine then 1 else cosine)
    else .ok 0

end Engram
