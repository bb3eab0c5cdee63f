import Engram.Concept
import Engram.Digest
import Engram.Memory

/-!
The capabilities that come from outside: embedding a text and generating a reply. The two defined
here need no model: words are placed by their digest, and a prompt is acknowledged.
-/

namespace Engram

/-- Why a collaborator gave no answer. -/
inductive CollaboratorFailure where
  | unreachable (reason : String)
  | failed (reason : String)
  /-- The call has no result at all. -/
  | undefined
  deriving DecidableEq, Repr

def CollaboratorFailure.message : CollaboratorFailure → String
  | .unreachable reason => "collaborator unreachable: " ++ reason
  | .failed reason => "collaborator call failed: " ++ reason
  | .undefined => "undefined result"

abbrev Embedder := String → Except CollaboratorFailure Embedding

abbrev Generator := String → Except CollaboratorFailure String

structure Collaborators where
  embedder : Embedder
  generator : Generator

namespace HashEmbedding

/-- Add a signed unit at a place. -/
def bump (vector : Array Float32) (digest : UInt64) : Array Float32 :=
  let unit : Float32 := if digest >>> 63 == 0 then 1 else -1
  vector.modify (digest.toNat % vector.size) (· + unit)

/-- The length of a vector. -/
def norm (vector : Array Float32) : Float32 :=
  Float32.sqrt (vector.foldl (fun sum x => sum + x * x) 0)

/-- The words of a text placed in `dimension` buckets by their digests, scaled to length one. Words
cannot be placed in no bucket. -/
def embed (dimension : Nat) : Embedder := fun text =>
  let words := (Text.bareWords text).filter (· ≠ "")
  if dimension = 0 && !words.isEmpty then .error .undefined
  else
    let vector := (words.map Digest.ofText).foldl bump (Array.replicate dimension 0)
    let length := norm vector
    .ok (if 0 < length then vector.map (· / length) else vector).toList

end HashEmbedding

namespace Echo

/-- What follows a marker at the start of a line. -/
def after? (marker : String) (line : List Char) : Option (List Char) :=
  if marker.toList.isPrefixOf line then some (line.drop marker.length) else none

/-- The last line of a prompt that states an input or a question, without its marker. -/
def statement? (prompt : String) : Option (List Char) :=
  (Text.linesOf prompt.toList).reverse.findSome? fun line =>
    (after? "Current Input: " line).or (after? "Question: " line)

/-- Acknowledge the input or the question of a prompt, or else the prompt itself. -/
def reply (prompt : String) : String :=
  let statement := (statement? prompt).getD prompt.toList
  "Noted: " ++ String.ofList (Text.trimClass Text.isBlank statement)

def generate : Generator := fun prompt => .ok (reply prompt)

end Echo

end Engram
