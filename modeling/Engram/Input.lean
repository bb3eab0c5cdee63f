import Engram.Concept
import Engram.Json.Codec
import Engram.Number.Order
import Engram.Tier

/-!
Inputs from the foreground, and the rules that give a new memory its tier and its importance. A
declared kind decides the tier where it is a known one; otherwise the shape of the text does.
-/

namespace Engram

structure Input where
  text : String
  kind : Option String
  importance : Option Float
  metadata : Json.Map

namespace Input

open Json in
instance : Codec Input where
  encode i := .obj (
    [("text", encode i.text)]
    ++ (i.kind.map fun kind => ("kind", encode kind)).toList
    ++ (i.importance.map fun x => ("importance", encode x)).toList
    ++ [("metadata", encode i.metadata)])
  decode := record ["text", "kind", "importance", "metadata"] fun f => do
    return {
      text := ← f.need "text"
      kind := ← f.orDefault "kind" none
      importance := ← f.orDefault "importance" none
      metadata := ← f.orDefault "metadata" [] }

end Input

namespace Classify

/-- The tier of a declared kind. -/
def ofKind? (kind : String) : Option Tier :=
  let kind := Text.lowercase (Text.trim kind)
  if ["interaction", "conversation", "chat", "event", "experience"].contains kind then
    some .episodic
  else if ["fact", "reference", "definition", "knowledge"].contains kind then some .semantic
  else if ["procedure", "instruction", "howto", "how-to", "skill"].contains kind then
    some .procedural
  else if ["working", "scratch"].contains kind then some .working
  else none

/-- Whether `part` stands somewhere in a text. -/
def occursIn (part : List Char) : List Char → Bool
  | [] => part.isEmpty
  | c :: cs => part.isPrefixOf (c :: cs) || occursIn part cs

def mentions (text part : String) : Bool :=
  occursIn part.toList text.toList

/-- Whether a line starts with a number and a point or a closing bracket. -/
def isNumbered (line : List Char) : Bool :=
  let line := line.dropWhile Text.isBlank
  match line.span Char.isDigit with
  | (_ :: _, mark :: _) => mark = '.' || mark = ')'
  | _ => false

def looksProcedural (text : String) : Bool :=
  text.startsWith "how to " || mentions text "step 1"
    || 2 ≤ (Text.linesOf text.toList).countP isNumbered

def looksFactual (text : String) : Bool :=
  text.startsWith "fact:" || mentions text " is defined as " || mentions text " is a "
    || mentions text " is an " || mentions text " means "

def looksEpisodic (text : String) : Bool :=
  ["yesterday", "today", "this morning", "just now", "i met", "we talked", "remember when"].any
    (mentions text)

/-- The kind an input declares, itself or under `type` in its metadata. -/
def declaredKind (i : Input) : Option String :=
  match i.kind with
  | some kind => some kind
  | none =>
    match i.metadata.get? "type" with
    | some (.str kind) => some kind
    | _ => none

/-- The tier by the shape of the text. -/
def byShape (text : String) : Tier :=
  let text := Text.lowercase text
  if looksProcedural text then .procedural
  else if looksFactual text then .semantic
  else if looksEpisodic text then .episodic
  else .working

/-- The tier of the memory that an input becomes. -/
def tier (i : Input) : Tier :=
  match (declaredKind i).bind ofKind? with
  | some t => t
  | none => byShape i.text

/-- The importance of an input that declares none. -/
def defaultImportance : Float := 0.5

/-- The declared importance, if it is a finite number, kept between zero and one. -/
def importance (i : Input) : Float :=
  let declared := match i.importance with
    | some x => if x.isFinite then x else defaultImportance
    | none => defaultImportance
  Number.clamp 0.0 1.0 declared

end Classify

/-- How an input is given its tier. -/
abbrev Classifier := Input → Tier

end Engram
