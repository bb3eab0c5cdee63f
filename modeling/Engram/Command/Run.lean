import Engram.Command.Arguments
import Engram.Command.Disk
import Engram.Command.Replay

/-!
The commands, on a disk and with a clock.
-/

namespace Engram.Command

/-- What a command works on. -/
structure World where
  disk : Disk
  source : Source
  /-- The directory for the data of programs. -/
  dataHome : String

/-- The name of the archive in its directory. -/
def archiveFile : String := "somnia.db"

/-- The path of a name in a directory. -/
def inside (directory name : String) : String :=
  if directory.endsWith "/" then directory ++ name else directory ++ "/" ++ name

/-- Where the archive is. -/
def archivePath (w : World) (dataDir : Option String) : String :=
  inside (dataDir.getD (inside w.dataHome "core")) archiveFile

/-- Read the configuration, or take the default one. -/
def readConfig (w : World) : Option String → Except String Config
  | none => .ok {}
  | some path =>
    match w.disk.text? path with
    | none => .error ("Failed to read config " ++ path)
    | some content =>
      match Json.decodeText content with
      | none => .error ("Invalid config " ++ path)
      | some (c : Config) =>
        match c.validate with
        | .ok () => .ok c
        | .error e => .error e.message

/-- Open the archive and go on with it. -/
def withArchive (w : World) (path : String)
    (next : World → Path → DurableArchive → World × Output) : World × Output :=
  let (disk, opened) := w.disk.openArchive path
  let w := { w with disk }
  match opened with
  | none => (w, .fail "Failed to open archive database")
  | some (place, a) => next w place a

/-- Print something about the archive. -/
def report (w : World) (path : String) (print : DurableArchive → Output) : World × Output :=
  withArchive w path fun w _ a => (w, print a)

/-- Replay a file into the archive at a place. -/
def replay (config : Config) (file : String) (skipNightly : Bool) (w : World) (place : Path)
    (a : DurableArchive) : World × Output :=
  if w.source.clock.time.seconds < 0 then (w, ⟨[], some .noClock⟩)
  else
    match Mind.create config (.ofStorage (.durable a)) w.source with
    | .error e => (w, .fail e.message)
    | .ok mind =>
      let r := Replay.run mind file (w.disk.text? file) skipNightly
      let disk := match r.mind.backend.storage with
        | .durable a => w.disk.put place (.archive a)
        | .volatile _ => w.disk
      ({ w with disk, source := r.mind.source }, r.output)

/-- Carry out an invocation. -/
def Invocation.run (i : Invocation) (w : World) : World × Output :=
  let path := archivePath w i.dataDir
  match i.action with
  | .stats => report w path (statsOutput path)
  | .archives none => report w path daysOutput
  | .archives (some date) => report w path (entriesOutput · date)
  | .display date json memories => report w path (displayOutput · date json memories)
  | .replay file skipNightly =>
    match readConfig w i.config with
    | .error message => (w, .fail message)
    | .ok config => withArchive w path (replay config file skipNightly)

def versionText : String := "somnia 0.3.0"

/-- The exit status and the lines of a request. -/
def Request.perform (r : Request) (w : World) : World × Nat × List String :=
  match r with
  | .unusable => (w, 2, [])
  | .version => (w, 0, [versionText])
  | .help => (w, 0, [])
  | .run i =>
    let (w, output) := i.run w
    (w, output.status, output.lines)

end Engram.Command
