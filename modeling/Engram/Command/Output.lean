import Engram.Archive.Durable
import Engram.Archive.Entry
import Engram.Json.Writer
import Engram.Number.Fixed

/-!
What the commands print about an archive. Printing stops at the first thing that cannot be read;
what was printed before stays.
-/

namespace Engram.Command

/-- Why a command did not come to its end. -/
inductive Failure where
  | error (message : String)
  /-- It broke off, for the clock cannot be read before 1970. -/
  | noClock
  deriving DecidableEq, Repr

namespace Failure

def message : Failure → String
  | .error message => message
  | .noClock => "system time before Unix epoch"

def status : Failure → Nat
  | .error _ => 1
  | .noClock => 101

end Failure

structure Output where
  lines : List String
  failure : Option Failure

namespace Output

def say (lines : List String) : Output := ⟨lines, none⟩

def fail (message : String) : Output := ⟨[], some (.error message)⟩

/-- One output after the other; nothing comes after a failure. -/
instance : Append Output where
  append a b := if a.failure.isSome then a else ⟨a.lines ++ b.lines, b.failure⟩

/-- Go on with a result, or fail as it did. -/
def use {α : Type} (result : Except Error α) (next : α → Output) : Output :=
  match result with
  | .ok a => next a
  | .error e => fail e.message

/-- The exit status. -/
def status (o : Output) : Nat := (o.failure.map Failure.status).getD 0

end Output

/-- Fill up with blanks on the right. -/
def left (width : Nat) (s : String) : String :=
  s ++ String.ofList (List.replicate (width - s.length) ' ')

/-- Fill up with blanks on the left. -/
def right (width : Nat) (s : String) : String :=
  String.ofList (List.replicate (width - s.length) ' ') ++ s

/-- A name and a count in columns. -/
def countLine (name : String) (count : Nat) : String :=
  "  " ++ left 12 name ++ " " ++ right 6 (toString count)

/-- A text cut to a number of characters, with dots where something is missing. -/
def shorten (most : Nat) (s : String) : String :=
  if s.length ≤ most then s else String.ofList (s.toList.take (most - 3)) ++ "..."

/-- The last nightly run, if there was one. -/
def lastRunLines : Option RunRecord → List String
  | none => ["Last Nightly Run: never"]
  | some run =>
    let status := if run.completed then "completed" else "partial"
    ["Last Nightly Run: " ++ run.startedAt.plainText ++ " (" ++ status ++ ")", "  " ++ run.summary]

def dateRange (days : List ArchiveDay) : List String :=
  match days.head?, days.getLast? with
  | some first, some last => ["Date Range: " ++ first.date.text ++ " .. " ++ last.date.text]
  | _, _ => []

def snapshotLines (snapshots : List (String × List Memory)) : List String :=
  if snapshots.isEmpty then []
  else ["", "=== Persisted Tier Snapshots ==="]
    ++ snapshots.map fun (tag, memories) => countLine tag memories.length

def unsealedLines (day : Option PendingDay) : List String :=
  match day with
  | some day =>
    if day.isEmpty then []
    else ["", "=== Unsealed Day " ++ day.day.text ++ " ===",
      countLine "memories" day.memories.length, countLine "experiences" day.experiences.length]
  | none => []

/-- Statistics of the archive at a path. -/
def statsOutput (path : String) (a : DurableArchive) : Output :=
  .use a.days fun days =>
    let memories := days.foldl (fun n day => n + day.memories) 0
    .say ([
      "=== Somnia Archive Statistics ===", "", "Database: " ++ path,
      s!"Archive Entries: {a.entries.length}", s!"Archived Days: {days.length}",
      s!"Archived Memories: {memories}"] ++ dateRange days)
    ++ .use a.lastRun (fun run => .say (lastRunLines run))
    ++ .use a.loadSnapshots (fun snapshots => .say (snapshotLines snapshots))
    ++ .use a.pendingDay? (fun day => .say (unsealedLines day))
    ++ .use a.loadKnowledge (fun entries =>
      .say (if entries.isEmpty then [] else [s!"Knowledge Entries: {entries.length}"]))

/-- What stands for an empty list. -/
def orNone (lines : List String) : List String :=
  if lines.isEmpty then ["No entries found."] else lines

/-- The archived days. -/
def daysOutput (a : DurableArchive) : Output :=
  .use a.days fun days =>
    .say ("=== Archived Days ===" :: orNone (days.map fun day =>
      "  " ++ day.date.text ++ "  entries=" ++ left 3 (toString day.entries)
        ++ " memories=" ++ toString day.memories))

/-- The entries of a day, one line each. -/
def entriesOutput (a : DurableArchive) (date : Time.Date) : Output :=
  .use (a.entriesFor date) fun entries =>
    .say (("=== Archive Entries for " ++ date.text ++ " ===") :: orNone (entries.map fun e =>
      s!"  {e.id.text} {e.createdAt.timeText} memories={e.memories.length} experiences={e.experiences.length} patterns={e.patterns.length}"))

def patternLine (p : Pattern) : String :=
  "  " ++ left 13 p.kind.name ++ " " ++ left 40 (" ".intercalate p.concepts) ++ " x"
    ++ left 3 (toString p.occurrences) ++ " " ++ Number.fixed 2 p.importance.toFloat

def memoryLine (m : Memory) : String :=
  let firstLine := ((Text.lines m.content).head?).getD ""
  "  [" ++ m.tier.name ++ "] " ++ Number.fixed 2 m.importance.toFloat ++ " " ++ shorten 72 firstLine

/-- An entry in full. -/
def entryLines (withMemories : Bool) (e : ArchiveEntry) : List String :=
  let m := e.metrics
  let patterns :=
    if e.patterns.isEmpty then []
    else ["", "Top patterns:"] ++ (e.patterns.take 10).map patternLine
  let memories :=
    if withMemories && !e.memories.isEmpty then
      ["", "Archived memories:"] ++ e.memories.map memoryLine
    else []
  [ "=== Entry " ++ e.id.text ++ " ===",
    "Created: " ++ e.createdAt.plainText,
    s!"Experiences: {m.experiences}",
    s!"Patterns: {m.recurringPatterns} recurring, {m.sequentialPatterns} sequential, {m.coOccurrencePatterns} co-occurrence",
    s!"Knowledge: {m.knowledgeTouched} touched, {m.conflictsResolved} conflicts resolved",
    s!"Training Batches: {m.batchesApplied} applied, {m.batchesRolledBack} rolled back",
    s!"Memories Archived: {m.memoriesArchived}"]
  ++ m.tierSizes.items.map (fun (tier, size) => countLine tier.name size ++ " active")
  ++ patterns ++ memories ++ [""]

/-- The entries of a day in full, as text or as JSON. -/
def displayOutput (a : DurableArchive) (date : Time.Date) (json memories : Bool) : Output :=
  .use (a.entriesFor date) fun entries =>
    if json then .say (Text.lines ((Json.encode entries).pretty))
    else if entries.isEmpty then .say ["No archive entries for " ++ date.text ++ "."]
    else .say (entries.flatMap (entryLines memories))

end Engram.Command
