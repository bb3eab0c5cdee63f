import Engram.Archive.Volatile
import Engram.Error
import Engram.Time.Reader

/-!
The archive on disk, as tables. Rows keep texts: identifiers and times in columns that are unique
or sorted as text, everything else as JSON. A write happens as a whole or not at all.
-/

namespace Engram

/-- The JSON text of a row, or nothing if the text is not JSON. -/
abbrev Payload := Option Json.Document

namespace Payload

def ofText (s : String) : Payload := Json.Document.parse? s

def ofValue {α : Type} [Json.Codec α] (a : α) : Payload := some (Json.encode a).document

/-- Read a row back. -/
def read {α : Type} [Json.Codec α] (p : Payload) : Except Error α :=
  match p.bind Json.decodeDocument with
  | some a => .ok a
  | none => .error (.malformed (p.bind (·.gap?)))

end Payload

structure EntryRow where
  id : String
  date : String
  createdAt : String
  memoryCount : Int
  payload : Payload

structure RunRow where
  id : String
  startedAt : String
  completedAt : String
  completed : Bool
  summary : String

structure DurableArchive where
  /-- In the order in which they were inserted. -/
  entries : List EntryRow
  snapshots : ByTag Payload
  runs : List RunRow
  pendingDay : Option Payload
  knowledge : Option Payload

namespace DurableArchive

def empty : DurableArchive := ⟨[], [], [], none, none⟩

def pendingDay? (a : DurableArchive) : Except Error (Option PendingDay) :=
  match a.pendingDay with
  | none => .ok none
  | some payload => (payload.read : Except Error PendingDay).map some

def insertEntry (a : DurableArchive) (row : EntryRow) : Except Error DurableArchive :=
  if a.entries.any (·.id == row.id) then .error (.table .repeatedEntry)
  else .ok { a with entries := a.entries ++ [row] }

def savePendingDay (a : DurableArchive) (day : PendingDay) : DurableArchive :=
  { a with pendingDay := some (.ofValue day) }

def rowOf (entry : ArchiveEntry) : EntryRow where
  id := entry.id.text
  date := entry.date.text
  createdAt := entry.createdAt.offsetText
  memoryCount := entry.memories.length
  payload := .ofValue entry

/-- Write an entry, and remove what it seals from the pending day. A pending day that cannot be
read makes the write fail. -/
def append (a : DurableArchive) (entry : ArchiveEntry) : Except Error DurableArchive := do
  let inserted ← a.insertEntry (rowOf entry)
  match ← a.pendingDay? with
  | none => return inserted
  | some day =>
    let pruned := day.prune entry
    return if pruned.size = day.size then inserted else inserted.savePendingDay pruned

/-- The rows of a date, by the text of their creation time and then by insertion. -/
def rowsFor (a : DurableArchive) (date : String) : List EntryRow :=
  (a.entries.filter (·.date == date)).mergeSort fun r s => r.createdAt ≤ s.createdAt

def entriesFor (a : DurableArchive) (date : Time.Date) : Except Error (List ArchiveEntry) :=
  (a.rowsFor date.text).mapM fun row => row.payload.read

/-- An integer as an unsigned 64-bit word. -/
def wordOf (n : Int) : Nat := (n % Number.twoTo 64).toNat

/-- Add to a sum of signed 64-bit words, unless it leaves their range. -/
def addWord (sum n : Int) : Except Error Int :=
  let sum := sum + n
  if -Number.twoTo 63 ≤ sum && sum < Number.twoTo 63 then .ok sum else .error (.table .overflow)

/-- How many rows a date text has, and how many memories they count. -/
def tally (a : DurableArchive) (text : String) : Except Error (String × Nat × Nat) := do
  let rows := a.entries.filter (·.date == text)
  let memories ← rows.foldlM (fun sum row => addWord sum row.memoryCount) 0
  return (text, rows.length, wordOf memories)

/-- The rows of each date text, in ascending order of the texts. All are counted before a text is
read as a date. -/
def days (a : DurableArchive) : Except Error (List ArchiveDay) := do
  let texts := (a.entries.map (·.date)).eraseDups.mergeSort fun s t => s ≤ t
  (← texts.mapM a.tally).mapM fun (text, entries, memories) =>
    match Time.Date.parse? text with
    | none => .error (.stored .archiveDate)
    | some date => .ok ⟨date, entries, memories⟩

def saveSnapshot (a : DurableArchive) (tier : Tier) (memories : List Memory) : DurableArchive :=
  { a with snapshots := a.snapshots.put tier.name (.ofValue memories) }

def loadSnapshots (a : DurableArchive) : Except Error (List (String × List Memory)) :=
  a.snapshots.mapM fun (tag, payload) => do return (tag, ← payload.read)

def insertRun (a : DurableArchive) (row : RunRow) : Except Error DurableArchive :=
  if a.runs.any (·.id == row.id) then .error (.table .repeatedRun)
  else .ok { a with runs := a.runs ++ [row] }

def recordRun (a : DurableArchive) (run : RunRecord) : Except Error DurableArchive :=
  a.insertRun {
    id := run.id.text
    startedAt := run.startedAt.offsetText
    completedAt := run.completedAt.offsetText
    completed := run.completed
    summary := run.summary }

/-- The row with the greatest completion time as text, the last inserted one among equals. -/
def lastRow? (runs : List RunRow) : Option RunRow :=
  runs.foldl (fun best row =>
    match best with
    | none => some row
    | some other => if other.completedAt ≤ row.completedAt then some row else best) none

def readTime (s : String) : Except Error Time.Instant :=
  match Time.Instant.parseStrict? s with
  | some t => .ok t
  | none => .error (.stored .timestamp)

def readRun (row : RunRow) : Except Error RunRecord := do
  match Uid.parse? row.id with
  | none => throw (.stored .runId)
  | some id =>
    let startedAt ← readTime row.startedAt
    let completedAt ← readTime row.completedAt
    return ⟨id, startedAt, completedAt, row.completed, row.summary⟩

def lastRun (a : DurableArchive) : Except Error (Option RunRecord) :=
  match lastRow? a.runs with
  | none => .ok none
  | some row => (readRun row).map some

def saveKnowledge (a : DurableArchive) (entries : List KnowledgeEntry) : DurableArchive :=
  { a with knowledge := some (.ofValue entries) }

def loadKnowledge (a : DurableArchive) : Except Error (List KnowledgeEntry) :=
  match a.knowledge with
  | none => .ok []
  | some payload => payload.read

def saveCheckpoint (a : DurableArchive) (c : Checkpoint) : DurableArchive :=
  let a := c.tiers.foldl (fun a (tier, memories) => a.saveSnapshot tier memories) a
  (a.savePendingDay c.pendingDay).saveKnowledge c.knowledge

/-- Archive entries cannot be changed: the number of rows changed is zero or the change fails. -/
def updateEntry (a : DurableArchive) (id : String) : Except Error Nat :=
  if a.entries.any (·.id == id) then .error (.table .appendOnly) else .ok 0

end DurableArchive

end Engram
