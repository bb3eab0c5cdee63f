import Engram.Archive.Backend
import Engram.Source

/-!
The archive log. Demoted memories wait in a pending batch until they are sealed into an entry; a
batch that outgrows its bound is sealed early. A failed write puts the batch back in front.
-/

namespace Engram

structure ArchiveLog where
  backend : Backend
  /-- Demoted and not yet sealed, in the order of demotion. -/
  pending : List Memory
  /-- The memories sealed last, oldest first. -/
  recent : List Memory
  recentCapacity : Nat
  maxPending : Nat

namespace ArchiveLog

def empty (backend : Backend) (recentCapacity maxPending : Nat) : ArchiveLog :=
  ⟨backend, [], [], recentCapacity, max maxPending 1⟩

/-- The last `n` elements. -/
def lastOf {α : Type} (n : Nat) (items : List α) : List α :=
  items.drop (items.length - n)

/-- Take the pending batch out of the log. -/
def takePending (l : ArchiveLog) : List Memory × ArchiveLog :=
  (l.pending, { l with pending := [] })

/-- Put a batch back in front of what has been staged since. -/
def putBack (l : ArchiveLog) (batch : List Memory) : ArchiveLog :=
  { l with pending := batch ++ l.pending }

/-- Take one memory more into a view of limited capacity, which drops its oldest one if it is
full. -/
def push (capacity : Nat) (recent : List Memory) (m : Memory) : List Memory :=
  (if recent.length = capacity then recent.tail else recent) ++ [m]

/-- Keep the memories of a sealed batch in view, unless there is no room for any. -/
def remember (l : ArchiveLog) (batch : List Memory) : ArchiveLog :=
  { l with
    recent :=
      if l.recentCapacity = 0 then l.recent else batch.foldl (push l.recentCapacity) l.recent }

/-- Write an entry that holds a batch; on failure the batch goes back. -/
def write (l : ArchiveLog) (entry : ArchiveEntry) : ArchiveLog × Except Error ArchiveEntry :=
  match l.backend.append entry with
  | .ok backend => ({ l with backend }.remember entry.memories, .ok entry)
  | .error e => (l.putBack entry.memories, .error (.archiveWrite e.message))

/-- Seal the pending batch into an entry, together with the experiences and patterns of a day. -/
def sealBatch (l : ArchiveLog) (source : Source) (date : Time.Date) (experiences : List Experience)
    (patterns : List Pattern) (metrics : DailyMetrics) :
    (ArchiveLog × Except Error ArchiveEntry) × Source :=
  let (batch, l) := l.takePending
  let (id, source) := source.freshId
  let (createdAt, source) := source.now
  let metrics := { metrics with memoriesArchived := batch.length }
  (l.write ⟨id, date, createdAt, batch, experiences, patterns, metrics⟩, source)

/-- Add demoted memories to the pending batch. A batch over its bound is sealed at once; if that
fails it stays pending. -/
def stage (l : ArchiveLog) (source : Source) (memories : List Memory) : ArchiveLog × Source :=
  if memories.isEmpty then (l, source)
  else
    let l := { l with pending := l.pending ++ memories }
    if l.pending.length ≤ l.maxPending then (l, source)
    else
      let (today, source) := source.today
      let ((l, _), source) := l.sealBatch source today [] [] {}
      (l, source)

/-- Put recovered memories in front of those staged since, except for those that are pending
already. The number put back is returned. -/
def restorePending (l : ArchiveLog) (recovered : List Memory) : ArchiveLog × Nat :=
  let known := l.pending.map (·.id)
  let missing := recovered.filter fun m => !known.contains m.id
  (l.putBack missing, missing.length)

/-- Up to `n` of the memories sealed last, oldest first. -/
def recentlySealed (l : ArchiveLog) (n : Nat) : List Memory := lastOf n l.recent

end ArchiveLog

end Engram
