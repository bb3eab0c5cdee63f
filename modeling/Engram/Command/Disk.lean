import Engram.Archive.Durable
import Engram.Text.Words

/-!
Files by path: texts, archives and directories. A path text leads step by step from one directory
to the next, and nowhere if a directory on the way is missing or a name is too long. Opening an
archive makes the directories on the way to it and, where there is none, an empty archive.
-/

namespace Engram.Command

/-- The names that lead to a place from the top. -/
abbrev Path := List String

namespace Path

/-- The most bytes that a name may have. -/
def longestName : Nat := 255

/-- The most bytes that a path text may have. -/
def longestText : Nat := 4095

/-- The steps of a path text. -/
def steps (text : String) : List String :=
  (Text.splitAtClass (· = '/') text.toList).map String.ofList

/-- The place that a step leads to. -/
def step? (here : Path) (step : String) : Option Path :=
  if step = "" || step = "." then some here
  else if step = ".." then some here.dropLast
  else if step.utf8ByteSize ≤ longestName then some (here ++ [step])
  else none

/-- The path text that leads to a place from the top. -/
def text (p : Path) : String := String.join (p.map ("/" ++ ·))

end Path

inductive Node where
  | text (content : String)
  | archive (content : DurableArchive)
  | directory

structure Disk where
  nodes : List (Path × Node)
  /-- The directory that relative paths start from. -/
  current : Path

namespace Disk

/-- A disk with one directory and those it is in. -/
def startingIn (current : Path) : Disk where
  nodes := (List.range (current.length + 1)).map fun n => (current.take n, .directory)
  current

def find? (d : Disk) (p : Path) : Option Node := d.nodes.lookup p

def put (d : Disk) (p : Path) (node : Node) : Disk :=
  { d with nodes := (p, node) :: d.nodes.filter (·.1 ≠ p) }

/-- Where the steps of a path text start. -/
def origin (d : Disk) (path : String) : Path :=
  if path.startsWith "/" then [] else d.current

/-- Take a step from a directory. -/
def step? (d : Disk) (here : Path) (step : String) : Option Path :=
  match d.find? here with
  | some .directory => here.step? step
  | _ => none

/-- The place that a path text leads to, whether or not anything is there. -/
def place? (d : Disk) (path : String) : Option Path :=
  if path.utf8ByteSize ≤ Path.longestText then (Path.steps path).foldlM d.step? (d.origin path)
  else none

/-- The content of a text file. -/
def text? (d : Disk) (path : String) : Option String :=
  match (d.place? path).bind d.find? with
  | some (.text content) => some content
  | _ => none

/-- Take a step and make a directory there, unless there is one. A file is in the way. -/
def enter : Disk × Option Path → String → Disk × Option Path
  | (d, none), _ => (d, none)
  | (d, some here), step =>
    match here.step? step with
    | none => (d, none)
    | some p =>
      match d.find? p with
      | none => (d.put p .directory, some p)
      | some .directory => (d, some p)
      | some _ => (d, none)

/-- Make the directories on the way to a path. The place of the path itself is what they lead to,
if nothing was in the way. -/
def makeWay (d : Disk) (path : String) : Disk × Option Path :=
  let steps := Path.steps path
  let (d, directory) := steps.dropLast.foldl enter (d, some (d.origin path))
  (d, directory.bind fun here => steps.getLast?.bind here.step?)

/-- Write a text file. -/
def write (d : Disk) (path content : String) : Disk :=
  match d.makeWay path with
  | (d, some p) => d.put p (.text content)
  | (d, none) => d

/-- The most bytes that lead from the top to an archive. -/
def longestWay : Nat := 504

/-- The archive at a place, where an empty file is an empty archive. -/
def archiveAt? (d : Disk) (p : Path) : Option DurableArchive :=
  if longestWay < p.text.utf8ByteSize then none
  else
    match d.find? p with
    | none => some .empty
    | some (.text "") => some .empty
    | some (.archive a) => some a
    | some _ => none

/-- Open the archive at a path, and tell its place. Directories stay even if it cannot be opened. -/
def openArchive (d : Disk) (path : String) : Disk × Option (Path × DurableArchive) :=
  let (d, place) := d.makeWay path
  match place.bind fun p => (d.archiveAt? p).map (p, ·) with
  | none => (d, none)
  | some (p, a) => (d.put p (.archive a), some (p, a))

end Disk

end Engram.Command
