import Engram.Config
import Engram.Experience
import Engram.Number.Order

/-!
Patterns of a day of experiences: concepts that recur, sequences of concepts that repeat, and
pairs of concepts that go together.
-/

namespace Engram

inductive PatternKind where
  | recurring
  | sequential
  | coOccurrence
  deriving DecidableEq, Repr

namespace PatternKind

def all : List PatternKind := [.recurring, .sequential, .coOccurrence]

def name : PatternKind → String
  | .recurring => "recurring"
  | .sequential => "sequential"
  | .coOccurrence => "cooccurrence"

def ofName? (s : String) : Option PatternKind :=
  all.find? (·.name == s)

instance : Json.Codec PatternKind where
  encode k := .str k.name
  decode room document := (Json.decodeName room document).bind ofName?

/-- What stands between the concepts of a pattern in its identifier. -/
def separator : PatternKind → String
  | .sequential => ">"
  | _ => "+"

end PatternKind

structure Pattern where
  id : String
  kind : PatternKind
  concepts : List String
  occurrences : UInt64
  importance : Number.Double
  experienceIds : List Uid
  discoveredAt : Time.Instant

namespace Pattern

open Json in
instance : Codec Pattern where
  encode p := .obj [
    ("id", encode p.id), ("patternType", encode p.kind), ("concepts", encode p.concepts),
    ("occurrences", encode p.occurrences), ("importance", encode p.importance),
    ("experienceIds", encode p.experienceIds), ("discoveredAt", encode p.discoveredAt)]
  decode := record [
    "id", "patternType", "concepts", "occurrences", "importance", "experienceIds",
    "discoveredAt"] fun f => do
    return {
      id := ← f.need "id"
      kind := ← f.need "patternType"
      concepts := ← f.need "concepts"
      occurrences := ← f.need "occurrences"
      importance := ← f.need "importance"
      experienceIds := ← f.need "experienceIds"
      discoveredAt := ← f.need "discoveredAt" }

/-- The identifier of a pattern: its kind and its concepts. -/
def keyOf (kind : PatternKind) (concepts : List String) : String :=
  kind.name ++ ":" ++ kind.separator.intercalate concepts

/-- The pattern of some concepts at the experiences that show it. It explains the share `weight` of
a day. -/
def ofSightings (kind : PatternKind) (now : Time.Instant) (concepts : List String)
    (ids : List Uid) (weight : Float) : Pattern where
  id := keyOf kind concepts
  kind
  concepts
  occurrences := ids.length.toUInt64
  importance := .ofFloat (Number.clamp 0.0 1.0 weight)
  experienceIds := ids
  discoveredAt := now

end Pattern

/-- Keys with the experiences they were seen in, in ascending order of the keys. -/
abbrev Sightings := List (List String × List Uid)

namespace Sightings

/-- Put a sighting before those of greater keys, and of its own key. -/
def note (seen : List String × Uid) : Sightings → Sightings
  | [] => [(seen.1, [seen.2])]
  | (key, ids) :: rest =>
    if seen.1 = key then (key, seen.2 :: ids) :: rest
    else (seen.1, [seen.2]) :: (key, ids) :: rest

/-- Keys in ascending order, each with its experiences in the order in which they were seen. -/
def ofList (seen : List (List String × Uid)) : Sightings :=
  (seen.mergeSort fun a b => (compare a.1 b.1).isLE).foldr note []

end Sightings

namespace Detect

/-- The concepts of an experience, each once. -/
def distinct (e : Experience) : List String := e.concepts.eraseDups

/-- Concepts that appear in at least the given number of experiences. -/
def recurring (c : NightlyConfig) (now : Time.Instant) (day : List Experience) : List Pattern :=
  let seen := day.flatMap fun e => (distinct e).map fun concept => ([concept], e.id)
  let frequent := (Sightings.ofList seen).filter fun (_, ids) => max c.minOccurrences 1 ≤ ids.length
  frequent.map fun (key, ids) =>
    .ofSightings .recurring now key ids (ids.length.toFloat / day.length.toFloat)

/-- The stretches of `width` consecutive elements. -/
def windows {α : Type} (width : Nat) : List α → List (List α)
  | [] => []
  | a :: rest =>
    let stretch := (a :: rest).take width
    if stretch.length = width then stretch :: windows width rest else []

/-- How often a sequence must repeat to count. -/
def minRepeats : Nat := 2

/-- Sequences of primary concepts that repeat. The first experience of a stretch marks it. -/
def sequences (c : NightlyConfig) (now : Time.Instant) (day : List Experience) : List Pattern :=
  let width := max c.sequenceWindow 2
  let seen := (windows width day).filterMap fun stretch => do
    let first ← stretch.head?
    let key ← stretch.mapM Experience.primary
    return (key, first.id)
  let repeated := (Sightings.ofList seen).filter fun (_, ids) => minRepeats ≤ ids.length
  repeated.map fun (key, ids) =>
    .ofSightings .sequential now key ids ((ids.length * width).toFloat / day.length.toFloat)

/-- Two concepts in ascending order. -/
def pairKey (a b : String) : List String :=
  if a < b then [a, b] else [b, a]

/-- All pairs of elements at different places. -/
def pairsOf : List String → List (List String)
  | [] => []
  | a :: rest => rest.map (pairKey a) ++ pairsOf rest

/-- Pairs of concepts that share at least the given part of the day. -/
def pairs (c : NightlyConfig) (now : Time.Instant) (day : List Experience) : List Pattern :=
  let seen := day.flatMap fun e => (pairsOf (distinct e)).map fun key => (key, e.id)
  let least := c.strongRatio * day.length.toFloat
  let strong := (Sightings.ofList seen).filter fun (_, ids) => least ≤ ids.length.toFloat
  strong.map fun (key, ids) =>
    .ofSightings .coOccurrence now key ids (ids.length.toFloat / day.length.toFloat)

/-- More important first, and by identifier among equals. -/
def precedes (a b : Pattern) : Bool :=
  ((b.importance.compareTotal a.importance).then (compare a.id b.id)).isLE

/-- All patterns of a day, the most important first. -/
def all (c : NightlyConfig) (now : Time.Instant) (day : List Experience) : List Pattern :=
  (recurring c now day ++ sequences c now day ++ pairs c now day).mergeSort precedes

end Detect

end Engram
