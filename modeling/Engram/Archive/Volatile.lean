import Engram.Archive.Entry

/-!
The archive of a process: it keeps values as they are and ends with the process.
-/

namespace Engram

/-- Values by tag, in ascending order of the tags, each tag once. -/
abbrev ByTag (α : Type) := List (String × α)

/-- Set the value of a tag. -/
def ByTag.put {α : Type} (tag : String) (a : α) : ByTag α → ByTag α
  | [] => [(tag, a)]
  | (other, b) :: rest =>
    if tag < other then (tag, a) :: (other, b) :: rest
    else if tag = other then (tag, a) :: rest
    else (other, b) :: ByTag.put tag a rest

structure VolatileArchive where
  /-- In the order in which they were written. -/
  entries : List ArchiveEntry
  snapshots : ByTag (List Memory)
  runs : List RunRecord
  pendingDay : Option PendingDay
  knowledge : List KnowledgeEntry

namespace VolatileArchive

def empty : VolatileArchive := ⟨[], [], [], none, []⟩

/-- Write an entry, and remove what it seals from the pending day. -/
def append (a : VolatileArchive) (entry : ArchiveEntry) : VolatileArchive :=
  { a with
    entries := a.entries ++ [entry]
    pendingDay := a.pendingDay.map (·.prune entry) }

def entriesFor (a : VolatileArchive) (date : Time.Date) : List ArchiveEntry :=
  a.entries.filter (·.date == date)

/-- The archived dates, oldest first. -/
def dates (a : VolatileArchive) : List Time.Date :=
  ((a.entries.map (·.date)).eraseDups).mergeSort fun d e => d.days ≤ e.days

def days (a : VolatileArchive) : List ArchiveDay :=
  a.dates.map fun date =>
    let entries := a.entriesFor date
    ⟨date, entries.length, entries.foldl (fun n e => n + e.memories.length) 0⟩

end VolatileArchive

end Engram
