import Engram.Json.Value

/-!
Writing JSON as text: on one line without blanks, or spread over lines with two blanks for each
level. Only quotes, backslashes and control characters are escaped.
-/

namespace Engram.Json

def hexDigit (n : Nat) : Char :=
  Nat.digitChar (n % 16)

/-- A character as it stands between quotes. -/
def escapeText (c : Char) : List Char :=
  if c = '"' then ['\\', '"']
  else if c = '\\' then ['\\', '\\']
  else if c = '\x08' then ['\\', 'b']
  else if c = '\x0c' then ['\\', 'f']
  else if c = '\n' then ['\\', 'n']
  else if c = '\r' then ['\\', 'r']
  else if c = '\t' then ['\\', 't']
  else if c.toNat < 0x20 then
    ['\\', 'u', '0', '0', hexDigit (c.toNat / 16), hexDigit c.toNat]
  else [c]

def quoted (s : String) : String :=
  String.ofList ('"' :: s.toList.flatMap escapeText ++ ['"'])

/-- A string with a lone surrogate, which has no text. -/
def noText : String := "\"\\ud800\""

/-- Documents without parts. -/
def Document.leafText : Document → String
  | .null => "null"
  | .bool b => if b then "true" else "false"
  | .num literal => literal.text
  | .float x =>
    match Number.Reading.ofFloat x with
    | .finite d => (Literal.ofDyadic .wide d).text
    | _ => "null"
  | .str text => (text.map quoted).getD noText
  | .arr _ => "[]"
  | .obj _ => "\x7b\x7d"

/-- A field without its value. -/
def fieldText (name : Option String) : String := (name.map quoted).getD noText

mutual

/-- The text of a document on one line. -/
def Document.compact : Document → String
  | .arr items => "[" ++ ",".intercalate (compactItems items) ++ "]"
  | .obj fields => "\x7b" ++ ",".intercalate (compactFields fields) ++ "\x7d"
  | document => document.leafText

def compactItems : List Document → List String
  | [] => []
  | item :: items => item.compact :: compactItems items

def compactFields : List (Option String × Document) → List String
  | [] => []
  | (name, document) :: fields =>
    (fieldText name ++ ":" ++ document.compact) :: compactFields fields

end

/-- A line break and the blanks of a level. -/
def newLine (level : Nat) : String :=
  String.ofList ('\n' :: List.replicate (2 * level) ' ')

/-- Parts between brackets, one on each line. -/
def spread (level : Nat) (parts : List String) : String :=
  ",".intercalate (parts.map (newLine (level + 1) ++ ·)) ++ newLine level

mutual

/-- The text of a document over several lines. -/
def Document.pretty : Nat → Document → String
  | level, .arr (item :: items) =>
    "[" ++ spread level (item.pretty (level + 1) :: prettyItems (level + 1) items) ++ "]"
  | level, .obj ((name, document) :: fields) =>
    "\x7b" ++ spread level ((fieldText name ++ ": " ++ document.pretty (level + 1)) ::
      prettyFields (level + 1) fields) ++ "\x7d"
  | _, document => document.leafText

def prettyItems : Nat → List Document → List String
  | _, [] => []
  | level, item :: items => item.pretty level :: prettyItems level items

def prettyFields : Nat → List (Option String × Document) → List String
  | _, [] => []
  | level, (name, document) :: fields =>
    (fieldText name ++ ": " ++ document.pretty level) :: prettyFields level fields

end

/-- The text of a value on one line. -/
def Value.compact (value : Value) : String := value.document.compact

/-- The text of a value over several lines. -/
def Value.pretty (value : Value) : String := value.document.pretty 0

end Engram.Json
