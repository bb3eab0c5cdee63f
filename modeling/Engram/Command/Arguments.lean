import Engram.Time.Reader

/-!
The arguments of the command line. Options may stand before or after the name of a command; where
an option is given at both places the later one counts, and giving it twice at one place is an
error. After two hyphens everything is taken as it stands.
-/

namespace Engram.Command

inductive Action where
  /-- Statistics of the archive. -/
  | stats
  /-- The archived days, or the entries of one day. -/
  | archives (date : Option Time.Date)
  /-- The entries of a day in full. -/
  | display (date : Time.Date) (json memories : Bool)
  /-- Process a file of inputs. -/
  | replay (file : String) (skipNightly : Bool)
  deriving DecidableEq, Repr

structure Invocation where
  dataDir : Option String
  config : Option String
  action : Action
  deriving DecidableEq, Repr

/-- What a list of arguments asks for. -/
inductive Request where
  | run (invocation : Invocation)
  | version
  | help
  | unusable
  deriving DecidableEq, Repr

/-- What the value of an argument has to be. -/
inductive ValueKind where
  | path
  | date
  deriving DecidableEq, Repr

def ValueKind.accepts : ValueKind → String → Bool
  | .path, s => s ≠ ""
  | .date, s => (Time.Date.parse? s).isSome

/-- The arguments that may stand at one place. -/
structure Grammar where
  flags : List String
  options : List (String × ValueKind)
  positional : List ValueKind
  /-- Names of commands, at the place where one is expected. -/
  commands : List String
  hasVersion : Bool

/-- The arguments found at one place. -/
structure Found where
  flags : List String
  options : List (String × String)
  positional : List String

/-- What reading the arguments at one place comes to. -/
inductive Reading where
  | found (found : Found)
  /-- The name of a command, and the arguments after it. Nothing was found if the option right
  before the name is no good; that is reported only after the arguments have been read. -/
  | command (found : Option Found) (name : String) (rest : List String)
  | stop (request : Request)

namespace Reading

/-- A long argument as its name and the value attached to it. -/
def split (argument : String) : String × Option String :=
  let (name, rest) := argument.toList.span (· ≠ '=')
  (String.ofList name, if rest.isEmpty then none else some (String.ofList (rest.drop 1)))

/-- Whether an argument can be the value of the option before it. -/
def isValue (argument : String) : Bool :=
  argument = "-" || !argument.startsWith "-"

/-- Add an argument without a name, if one more is allowed and it is acceptable. -/
def positional? (g : Grammar) (found : Found) (argument : String) : Option Found :=
  match g.positional[found.positional.length]? with
  | some kind =>
    if kind.accepts argument then
      some { found with positional := found.positional ++ [argument] }
    else none
  | none => none

/-- Add a flag that was not given yet. -/
def flag? (found : Found) (name : String) : Option Found :=
  if found.flags.contains name then none else some { found with flags := name :: found.flags }

/-- Add an option that was not given yet. -/
def option? (found : Found) (kind : ValueKind) (name value : String) : Option Found :=
  if (found.options.lookup name).isSome || !kind.accepts value then none
  else some { found with options := (name, value) :: found.options }

/-- Add arguments that are taken as they stand. -/
def verbatim (g : Grammar) (found : Found) (arguments : List String) : Reading :=
  match arguments.foldlM (positional? g) found with
  | some found => .found found
  | none => .stop .unusable

/-- Go on after an option that is no good. -/
def refused (g : Grammar) : List String → Reading
  | next :: rest => if g.commands.contains next then .command none next rest else .stop .unusable
  | [] => .stop .unusable

/-- Read the arguments at one place. -/
def read (g : Grammar) (found : Found) : List String → Reading
  | [] => .found found
  | argument :: rest =>
    if argument = "--" then verbatim g found rest
    else if argument.startsWith "--" then
      let (name, attached) := split argument
      if g.flags.contains name && attached.isNone then
        match flag? found name with
        | some found => read g found rest
        | none => .stop .unusable
      else if name = "--help" && attached.isNone then .stop .help
      else if name = "--version" && attached.isNone && g.hasVersion then .stop .version
      else
        match g.options.lookup name, attached, rest with
        | some kind, some value, rest =>
          match option? found kind name value with
          | some found => read g found rest
          | none => .stop .unusable
        | some kind, none, value :: rest =>
          if !isValue value then .stop .unusable
          else
            match option? found kind name value with
            | some found => read g found rest
            | none => refused g rest
        | _, _, _ => .stop .unusable
    else if argument ≠ "-" && argument.startsWith "-" then
      if argument.startsWith "-h" then .stop .help
      else if argument.startsWith "-V" && g.hasVersion then .stop .version
      else .stop .unusable
    else if g.commands.contains argument then .command (some found) argument rest
    else
      match positional? g found argument with
      | some found => read g found rest
      | none => .stop .unusable

end Reading

/-- The arguments that may stand anywhere. -/
def everywhere : Grammar where
  flags := ["--json-logs"]
  options := [("--data-dir", .path), ("--config", .path)]
  positional := []
  commands := []
  hasVersion := false

def commands : List String := ["stats", "archives", "show", "replay"]

/-- The arguments before the name of the command. -/
def first : Grammar :=
  { everywhere with commands := "help" :: commands, hasVersion := true }

/-- The arguments after the name of a command. -/
def grammarOf (command : String) : Grammar :=
  if command = "archives" then
    { everywhere with options := ("--date", .date) :: everywhere.options }
  else if command = "show" then
    { everywhere with
      flags := ["--json", "--memories"] ++ everywhere.flags
      positional := [.date] }
  else if command = "replay" then
    { everywhere with flags := "--skip-nightly" :: everywhere.flags, positional := [.path] }
  else everywhere

/-- The action of a command with its arguments. -/
def actionOf? (command : String) (f : Found) : Option Action :=
  if command = "stats" then some .stats
  else if command = "archives" then
    some (.archives ((f.options.lookup "--date").bind Time.Date.parse?))
  else if command = "show" then do
    let date ← f.positional.head?.bind Time.Date.parse?
    return .display date (f.flags.contains "--json") (f.flags.contains "--memories")
  else do
    return .replay (← f.positional.head?) (f.flags.contains "--skip-nightly")

/-- Ask for help on one command, or in general. -/
def helpOn : List String → Request
  | [] => .help
  | [name] => if ("help" :: commands).contains name then .help else .unusable
  | _ => .unusable

/-- Read the arguments of the command line. -/
def Request.parse (arguments : List String) : Request :=
  let nothing : Found := ⟨[], [], []⟩
  match Reading.read first nothing arguments with
  | .stop request => request
  | .found _ => .unusable
  | .command before command rest =>
    if command = "help" then helpOn rest
    else
      match Reading.read (grammarOf command) nothing rest with
      | .stop request => request
      | .command _ _ _ => .unusable
      | .found after =>
        match before, actionOf? command after with
        | some before, some action =>
          let option (name : String) : Option String :=
            (after.options.lookup name).or (before.options.lookup name)
          .run ⟨option "--data-dir", option "--config", action⟩
        | _, _ => .unusable

end Engram.Command
