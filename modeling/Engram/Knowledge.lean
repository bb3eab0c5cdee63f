import Engram.Names
import Engram.Pattern
import Engram.Source
import Engram.Training

/-!
Knowledge about concepts, merged from the patterns of each night. Every change to an entry raises
its revision; an entry whose revision is ahead of the one last trained still has to be trained.
Counters are words of 64 bits: one that passes its largest value starts again from zero.
-/

namespace Engram

structure KnowledgeEntry where
  concept : String
  frequency : UInt64
  associations : List String
  /-- The concept that most recently followed this one in a sequence. -/
  follows : Option String
  importance : Float
  revision : UInt64
  trainedRevision : UInt64
  updatedAt : Time.Instant

namespace KnowledgeEntry

open Json in
instance : Codec KnowledgeEntry where
  encode e := .obj [
    ("concept", encode e.concept), ("frequency", encode e.frequency),
    ("associations", encode e.associations), ("follows", encode e.follows),
    ("importance", encode e.importance), ("revision", encode e.revision),
    ("trainedRevision", encode e.trainedRevision), ("updatedAt", encode e.updatedAt)]
  decode := record [
    "concept", "frequency", "associations", "follows", "importance", "revision", "trainedRevision",
    "updatedAt"] fun f => do
    let associations : List String ← f.need "associations"
    return {
      concept := ← f.need "concept"
      frequency := ← f.need "frequency"
      associations := Names.ofList associations
      follows := ← f.maybe "follows"
      importance := ← f.need "importance"
      revision := ← f.need "revision"
      trainedRevision := ← f.need "trainedRevision"
      updatedAt := ← f.need "updatedAt" }

def empty (concept : String) (now : Time.Instant) : KnowledgeEntry :=
  ⟨concept, 0, [], none, 0.0, 0, 0, now⟩

def needsTraining (e : KnowledgeEntry) : Bool := e.trainedRevision < e.revision

/-- What a trainer is asked to learn about an entry. -/
def lesson (e : KnowledgeEntry) : TrainingExample :=
  let seen := s!"{e.concept} (seen {e.frequency} times)"
  let next := match e.follows with
    | some next => "; usually followed by " ++ next
    | none => ""
  let related :=
    if e.associations.isEmpty then "" else "; related to " ++ ", ".intercalate e.associations
  { input := s!"What do you know about {e.concept}?"
    output := seen ++ next ++ related
    metadata := [("concept", .str e.concept), ("importance", Json.encode e.importance),
      ("revision", Json.encode e.revision)] }

/-- A change that a pattern of the given importance brought. -/
def touch (e : KnowledgeEntry) (importance : Number.Double) (now : Time.Instant) : KnowledgeEntry :=
  { e with
    revision := e.revision + 1
    importance := Number.largest e.importance importance.toFloat
    updatedAt := now }

end KnowledgeEntry

/-- A follower that a later pattern replaced. -/
structure Conflict where
  concept : String
  replaced : String
  kept : String
  patternId : String
  deriving DecidableEq, Repr

open Json in
instance : Codec Conflict where
  encode c := .obj [
    ("concept", encode c.concept), ("replaced", encode c.replaced), ("kept", encode c.kept),
    ("patternId", encode c.patternId)]
  decode := record ["concept", "replaced", "kept", "patternId"] fun f => do
    return {
      concept := ← f.need "concept"
      replaced := ← f.need "replaced"
      kept := ← f.need "kept"
      patternId := ← f.need "patternId" }

/-- The entries, in ascending order of their concepts. -/
structure KnowledgeBase where
  entries : List KnowledgeEntry

/-- What one integration changed. -/
structure Integration where
  /-- Concepts whose entry changed, in order of first change. -/
  touched : List String
  created : Nat
  /-- Patterns about a concept that was known before. -/
  extended : Nat
  conflicts : List Conflict

/-- A knowledge base while patterns are being merged into it. -/
structure Merging where
  base : KnowledgeBase
  report : Integration
  clock : Clock
  /-- Whether a frequency has passed its largest value. Where additions are checked, that ends the
  program. -/
  frequencyPassed : Bool
  /-- Whether a revision has passed its largest value, likewise. -/
  revisionPassed : Bool

namespace KnowledgeBase

def empty : KnowledgeBase := ⟨[]⟩

def get? (b : KnowledgeBase) (concept : String) : Option KnowledgeEntry :=
  b.entries.find? (·.concept == concept)

def contains (b : KnowledgeBase) (concept : String) : Bool :=
  b.entries.any (·.concept == concept)

/-- Change the entry of a concept among ordered entries. A concept without one gets what the change
makes of `fresh`, in its place. -/
def alterEntries (concept : String) (fresh : KnowledgeEntry) (f : KnowledgeEntry → KnowledgeEntry) :
    List KnowledgeEntry → List KnowledgeEntry
  | [] => [f fresh]
  | e :: rest =>
    if e.concept < concept then e :: alterEntries concept fresh f rest
    else if e.concept = concept then f e :: rest
    else f fresh :: e :: rest

/-- Change the entry of a concept, or start from a fresh one. -/
def alter (b : KnowledgeBase) (fresh : KnowledgeEntry) (f : KnowledgeEntry → KnowledgeEntry) :
    KnowledgeBase :=
  ⟨alterEntries fresh.concept fresh f b.entries⟩

/-- Change the entry of a concept, if it has one. -/
def modify (b : KnowledgeBase) (concept : String) (f : KnowledgeEntry → KnowledgeEntry) :
    KnowledgeBase :=
  ⟨b.entries.map fun e => if e.concept == concept then f e else e⟩

/-- The entries of those of some concepts that have one. -/
def related (b : KnowledgeBase) (concepts : List String) : List KnowledgeEntry :=
  concepts.filterMap b.get?

end KnowledgeBase

namespace Merging

/-- Nothing has been merged yet. -/
def start (b : KnowledgeBase) (clock : Clock) : Merging :=
  ⟨b, ⟨[], 0, 0, []⟩, clock, false, false⟩

/-- Whether a sum is more than a counter can hold. -/
def passes (count added : UInt64) : Bool := UInt64.size ≤ count.toNat + added.toNat

/-- The entry of a concept as it is, or a new one. -/
def entry (m : Merging) (concept : String) : KnowledgeEntry :=
  (m.base.get? concept).getD (.empty concept m.clock.time)

/-- Change the entry of a concept because of a pattern. The clock is read for the change, and once
before it if the entry is new. -/
def change (p : Pattern) (m : Merging) (concept : String) (f : KnowledgeEntry → KnowledgeEntry) :
    Merging :=
  let known := m.base.contains concept
  let touched := m.report.touched
  let (now, clock) := (if known then m.clock else m.clock.now.2).now
  { base := m.base.alter (.empty concept m.clock.time) fun e => (f e).touch p.importance now
    report := { m.report with
      touched := if touched.contains concept then touched else touched ++ [concept]
      created := m.report.created + if known then 0 else 1 }
    clock
    frequencyPassed := m.frequencyPassed
    revisionPassed := m.revisionPassed || passes (m.entry concept).revision 1 }

/-- Count the occurrences of a recurring concept. -/
def recurring (p : Pattern) (m : Merging) : Merging :=
  match p.concepts with
  | [] => m
  | concept :: _ =>
    let changed := m.change p concept fun e => { e with frequency := e.frequency + p.occurrences }
    { changed with
      frequencyPassed := m.frequencyPassed || passes (m.entry concept).frequency p.occurrences }

/-- Associate one concept with another, unless it is known. -/
def link (p : Pattern) (m : Merging) (concept other : String) : Merging :=
  if (m.base.get? concept).any (·.associations.contains other) then m
  else m.change p concept fun e => { e with associations := Names.insert other e.associations }

/-- Associate the two concepts of a pair with each other. -/
def coOccurrence (p : Pattern) (m : Merging) : Merging :=
  match p.concepts with
  | [a, b] => (m.link p a b).link p b a
  | _ => m

/-- Note that one concept follows another. A different follower known so far gives way. -/
def follow (p : Pattern) (m : Merging) (concept next : String) : Merging :=
  let follower := (m.base.get? concept).bind (·.follows)
  if concept = next || follower = some next then m
  else
    let conflicts := follower.toList.map fun known => ⟨concept, known, next, p.id⟩
    let m := m.change p concept fun e => { e with follows := some next }
    { m with report := { m.report with conflicts := m.report.conflicts ++ conflicts } }

/-- Note every step of a sequence. -/
def sequence (p : Pattern) (m : Merging) : Merging :=
  (p.concepts.zip p.concepts.tail).foldl (fun m (a, b) => m.follow p a b) m

/-- Merge one pattern. -/
def pattern (m : Merging) (p : Pattern) : Merging :=
  let m :=
    if p.concepts.any m.base.contains then
      { m with report := { m.report with extended := m.report.extended + 1 } }
    else m
  match p.kind with
  | .recurring => m.recurring p
  | .coOccurrence => m.coOccurrence p
  | .sequential => m.sequence p

end Merging

namespace KnowledgeBase

/-- Patterns in the order in which they are merged: the most important first. -/
def mergeOrder (patterns : List Pattern) : List Pattern :=
  patterns.mergeSort fun a b => b.importance.rank ≤ a.importance.rank

/-- Merge patterns into the knowledge base. -/
def integrate (b : KnowledgeBase) (patterns : List Pattern) (clock : Clock) : Merging :=
  (mergeOrder patterns).foldl Merging.pattern (.start b clock)

/-- More important first, and by concept among equals. -/
def precedes (a b : KnowledgeEntry) : Bool :=
  ((Number.compareTotal b.importance a.importance).then (compare a.concept b.concept)).isLE

/-- The entries that still have to be trained, the most important first. -/
def pending (b : KnowledgeBase) : List KnowledgeEntry :=
  (b.entries.filter (·.needsTraining)).mergeSort precedes

/-- Note that a concept was trained at a revision. -/
def markTrained (b : KnowledgeBase) (concept : String) (revision : UInt64) : KnowledgeBase :=
  b.modify concept fun e =>
    { e with trainedRevision := max e.trainedRevision (min revision e.revision) }

/-- Add entries from a checkpoint, except for concepts that are known already. The number of
entries added is returned. -/
def restore (b : KnowledgeBase) (entries : List KnowledgeEntry) : KnowledgeBase × Nat :=
  entries.foldl (fun (b, count) e =>
    if b.contains e.concept then (b, count) else (b.alter e id, count + 1)) (b, 0)

end KnowledgeBase

end Engram
