import Engram.Archive.Durable
import Engram.Json.Writer

/-!
The archive as the text of a file.
-/

namespace Engram

open Json

/-- A payload keeps its text, as a string. -/
instance : Codec Document where
  encode d := .str d.compact
  decode
    | _, .str text => text.bind Document.parse?
    | _, _ => none

instance : Codec EntryRow where
  encode r := .obj [
    ("id", encode r.id), ("date", encode r.date), ("createdAt", encode r.createdAt),
    ("memoryCount", encode r.memoryCount), ("payload", encode r.payload)]
  decode := record [] fun f => do
    return {
      id := ← f.need "id"
      date := ← f.need "date"
      createdAt := ← f.need "createdAt"
      memoryCount := ← f.need "memoryCount"
      payload := ← f.maybe "payload" }

instance : Codec RunRow where
  encode r := .obj [
    ("id", encode r.id), ("startedAt", encode r.startedAt), ("completedAt", encode r.completedAt),
    ("completed", encode r.completed), ("summary", encode r.summary)]
  decode := record [] fun f => do
    return {
      id := ← f.need "id"
      startedAt := ← f.need "startedAt"
      completedAt := ← f.need "completedAt"
      completed := ← f.need "completed"
      summary := ← f.need "summary" }

/-- A saved tier with its tag. -/
structure SnapshotRow where
  tag : String
  payload : Payload

instance : Codec SnapshotRow where
  encode r := .obj [("tag", encode r.tag), ("payload", encode r.payload)]
  decode := record [] fun f => do
    return { tag := ← f.need "tag", payload := ← f.maybe "payload" }

instance : Codec DurableArchive where
  encode a := .obj [
    ("entries", encode a.entries),
    ("snapshots", encode (a.snapshots.map fun (tag, payload) => SnapshotRow.mk tag payload)),
    ("runs", encode a.runs), ("pendingDay", encode a.pendingDay.join),
    ("knowledge", encode a.knowledge.join)]
  decode := record [] fun f => do
    let snapshots : List SnapshotRow ← f.need "snapshots"
    let pendingDay : Payload ← f.maybe "pendingDay"
    let knowledge : Payload ← f.maybe "knowledge"
    return {
      entries := ← f.need "entries"
      snapshots := snapshots.map fun r => (r.tag, r.payload)
      runs := ← f.need "runs"
      pendingDay := pendingDay.map some
      knowledge := knowledge.map some }

namespace DurableArchive

/-- The first line of the file, which tells what the rest is. -/
def fileMark : String := "engram archive 1\n"

def fileText (a : DurableArchive) : String :=
  fileMark ++ (encode a).compact

/-- Read the text of a file. -/
def ofFileText? (s : String) : Option DurableArchive :=
  if s.startsWith fileMark then decodeText (String.ofList (s.toList.drop fileMark.length))
  else none

end DurableArchive

end Engram
