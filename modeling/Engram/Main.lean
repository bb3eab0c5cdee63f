import Engram.Archive.File
import Engram.Command.Run
import Std.Time.Zoned.Database

/-!
The command line: the files that an invocation names are read, the command is carried out on them,
and the archive is written back.
-/

namespace Engram.Command

/-- What is at a place, if it can be read. -/
def readNode? (place : Path) : IO (Option Node) := do
  let path := (← IO.currentDir) / place.text
  if ← path.isDir then return some .directory
  try
    let content ← IO.FS.readFile path
    match DurableArchive.ofFileText? content with
    | some a => return some (.archive a)
    | none => return some (.text content)
  catch _ => return none

/-- Read everything on the way to a path into a disk. -/
def gather (disk : Disk) (path : String) : IO Disk :=
  return (← (Path.steps path).foldlM (fun (disk, here) step => do
    let place := (Path.step? here step).getD here
    match ← readNode? place with
    | some node => return (disk.put place node, place)
    | none => return (disk, place)) (disk, disk.origin path)).1

/-- Write the directories and the archives of a disk. -/
def spill (disk : Disk) : IO Unit :=
  disk.nodes.reverse.forM fun (place, node) => do
    match node with
    | .directory => if place ≠ [] then IO.FS.createDirAll place.text
    | .archive a => IO.FS.writeFile place.text a.fileText
    | .text _ => pure ()

/-- The time, and the rules for local dates. -/
def readClock : IO Clock := do
  let now ← Std.Time.Timestamp.now
  let rules ← Std.Time.Database.defaultGetLocalZoneRules
  let nanos := now.toNanosecondsSinceUnixEpoch.val
  let time : Time.Instant := ⟨nanos / Time.billion, (nanos % Time.billion).toNat⟩
  let secondsEast (t : Time.Instant) : Int :=
    (rules.timezoneAt (.ofSecondsSinceUnixEpoch ⟨t.seconds⟩)).offset.second.val
  return ⟨time, ⟨fun t => (Time.Zone.fixed (secondsEast t)).date t⟩, 1⟩

/-- The paths that an invocation reads. -/
def Invocation.paths (i : Invocation) : List String :=
  i.config.toList ++
    match i.action with
    | .replay file _ => [file]
    | _ => []

/-- Carry out an invocation on the files it names. -/
def Invocation.runFiles (i : Invocation) : IO UInt32 := do
  let home := (← IO.getEnv "HOME").getD "."
  let dataHome := (← IO.getEnv "XDG_DATA_HOME").getD (inside home ".local/share")
  let fallback := (← IO.getEnv "SOMNIA_DATA_DIR").filter (· ≠ "")
  let i := { i with dataDir := i.dataDir.or fallback }
  let clock ← readClock
  let seed ← IO.rand 0 (Number.twoTo 48 - 1)
  let source : Source := ⟨clock, Uid.ofStream seed, 0⟩
  let current := (Path.steps (toString (← IO.currentDir))).filter (· ≠ "")
  let world : World := ⟨.startingIn current, source, dataHome⟩
  let disk ← (archivePath world i.dataDir :: i.paths).foldlM gather world.disk
  let (world, output) := i.run { world with disk }
  output.lines.forM fun line => IO.println line
  spill world.disk
  match output.failure with
  | some failure => IO.eprintln ("Error: " ++ failure.message)
  | none => pure ()
  return output.status.toUInt32

def usage : String :=
  "Usage: somnia [--data-dir <DATA_DIR>] [--config <CONFIG>] [--json-logs] <COMMAND>\n\n"
    ++ "Commands:\n  stats\n  archives [--date <DATE>]\n"
    ++ "  show <DATE> [--json] [--memories]\n  replay <FILE> [--skip-nightly]"

end Engram.Command

open Engram.Command in
def main (arguments : List String) : IO UInt32 := do
  match Request.parse arguments with
  | .run i => i.runFiles
  | .version =>
    IO.println versionText
    return 0
  | .help =>
    IO.println usage
    return 0
  | .unusable =>
    IO.eprintln usage
    return 2
