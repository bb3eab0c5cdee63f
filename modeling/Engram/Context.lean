import Engram.Concept
import Engram.Json.Writer
import Engram.Number.Order
import Engram.Time.Codec

/-!
The log of recent interactions: a first-in first-out window of bounded length, searched by the
words it shares with a query. What falls out of the window is gone.
-/

namespace Engram

/-- An interaction as it happened. -/
structure ContextItem where
  input : String
  output : String
  metadata : Json.Map
  timestamp : Time.Instant

namespace ContextItem

open Json in
instance : Codec ContextItem where
  encode i := .obj [
    ("input", encode i.input), ("output", encode i.output),
    ("metadata", encode i.metadata), ("timestamp", encode i.timestamp)]
  decode := record ["input", "output", "metadata", "timestamp"] fun f => do
    return {
      input := ← f.need "input"
      output := ← f.need "output"
      metadata := ← f.orDefault "metadata" []
      timestamp := ← f.need "timestamp" }

/-- A value as searchable text: a string stands for itself, anything else for its JSON text. -/
def valueText : Json.Value → String
  | .str s => s
  | value => value.compact

/-- The distinct words of the input, the output and the metadata. -/
def words (i : ContextItem) : List String :=
  (Text.vocabulary i.input ++ Text.vocabulary i.output
    ++ i.metadata.flatMap fun (name, value) =>
      Text.vocabulary name ++ Text.vocabulary (valueText value)).eraseDups

end ContextItem

/-- The share of the words of a query that are among `words`. -/
def shareOf (query words : List String) : Float :=
  (query.countP words.contains).toFloat / query.length.toFloat

/-- The share of a query's words that also appear in a text. A query without words shares none. -/
def wordOverlap (query text : String) : Float :=
  let query := Text.vocabulary query
  if query.isEmpty then 0.0 else shareOf query (Text.vocabulary text)

/-- An item and the share of the query's words it has. -/
structure ScoredItem where
  overlap : Float
  item : ContextItem

/-- The window over recent interactions, oldest first. -/
structure ContextBuffer where
  capacity : Nat
  items : List ContextItem

namespace ContextBuffer

/-- An empty window; it has room for at least one item. -/
def empty (capacity : Nat) : ContextBuffer :=
  ⟨max capacity 1, []⟩

/-- Add an item. The oldest one falls out, and is returned, when there is no room for it. -/
def append (b : ContextBuffer) (item : ContextItem) : ContextBuffer × Option ContextItem :=
  let items := b.items ++ [item]
  if b.capacity < items.length then (⟨b.capacity, items.tail⟩, items.head?)
  else (⟨b.capacity, items⟩, none)

/-- The items that share more than `threshold` of the query's words, the larger share first, and
among equal shares the later arrival first. -/
def relevant (b : ContextBuffer) (query : String) (threshold : Float) : List ScoredItem :=
  let query := Text.vocabulary query
  if query.isEmpty then []
  else
    let scored := b.items.map fun item => (⟨shareOf query item.words, item⟩ : ScoredItem)
    let passing := scored.reverse.filter (threshold < ·.overlap)
    passing.mergeSort fun a b => Number.rank b.overlap ≤ Number.rank a.overlap

/-- The last `n` items, in order of arrival. -/
def recent (b : ContextBuffer) (n : Nat) : List ContextItem :=
  b.items.drop (b.items.length - n)

/-- The items newer than an instant, in order of arrival. -/
def since (b : ContextBuffer) (after : Option Time.Instant) : List ContextItem :=
  b.items.filter fun item => after.all (·.before item.timestamp)

end ContextBuffer

end Engram
