import Engram.Json.Reader

/-!
JSON values: what a document means and what the library writes. Numbers are integers or floats of
one of two widths; the fields of an object stand in the order in which they are written.
-/

namespace Engram.Json

inductive Value where
  | null
  | bool (b : Bool)
  | int (n : Int)
  | float (x : Float)
  | single (x : Float32)
  | str (s : String)
  | arr (items : List Value)
  | obj (fields : List (String × Value))
  deriving Inhabited

/-- A map from names to values, ordered by name, each name once. -/
abbrev Map := List (String × Value)

namespace Map

/-- Set a name to a value. -/
def insert (name : String) (value : Value) : Map → Map
  | [] => [(name, value)]
  | (other, old) :: rest =>
    if name < other then (name, value) :: (other, old) :: rest
    else if name = other then (name, value) :: rest
    else (other, old) :: insert name value rest

/-- The map of a list of fields, where the last field of a name counts. -/
def ofFields (fields : List (String × Value)) : Map :=
  fields.foldl (fun map field => map.insert field.1 field.2) []

def get? (map : Map) (name : String) : Option Value :=
  List.lookup name map

end Map

/-- A number read from a literal, as a value. -/
def Numeral.value : Numeral → Value
  | .int n => .int n
  | .float x => .float x

mutual

/-- What a document means, where arrays and objects may nest `room` deep. -/
def Document.value? : Nat → Document → Option Value
  | _, .null => some .null
  | _, .bool b => some (.bool b)
  | _, .num literal => literal.number?.map Numeral.value
  | _, .float x => some (.float x)
  | _, .str text => text.map .str
  | 0, .arr _ => none
  | room + 1, .arr items => (values? room items).map .arr
  | 0, .obj _ => none
  | room + 1, .obj fields => (members? room fields).map fun members => .obj (Map.ofFields members)

def values? : Nat → List Document → Option (List Value)
  | _, [] => some []
  | room, item :: items => do
    let value ← item.value? room
    let values ← values? room items
    return value :: values

def members? : Nat → List (Option String × Document) → Option (List (String × Value))
  | _, [] => some []
  | room, (name, document) :: fields => do
    let name ← name
    let value ← document.value? room
    let members ← members? room fields
    return (name, value) :: members

end

/-- How the floats of a value stand in its document. -/
structure FloatForm where
  wide : Float → Document
  narrow : Float32 → Document

namespace FloatForm

/-- The shortest literal that reads back, and null where there is none. -/
def spelledReading (layout : Layout) : Number.Reading → Document
  | .finite d => .num (.ofDyadic layout d)
  | _ => .null

/-- Floats as they are written in a text. -/
def spelled : FloatForm where
  wide x := spelledReading .wide (.ofFloat x)
  narrow x := spelledReading .narrow (.ofFloat32 x)

/-- Floats as they are, so that nothing is lost to a spelling. -/
def exact : FloatForm where
  wide := .float
  narrow x := .float x.toFloat

end FloatForm

mutual

/-- The document of a value. -/
def Value.documentIn (form : FloatForm) : Value → Document
  | .null => .null
  | .bool b => .bool b
  | .int n => .num (.ofInt n)
  | .float x => form.wide x
  | .single x => form.narrow x
  | .str s => .str (some s)
  | .arr items => .arr (documents form items)
  | .obj fields => .obj (memberDocuments form fields)

def documents (form : FloatForm) : List Value → List Document
  | [] => []
  | item :: items => item.documentIn form :: documents form items

def memberDocuments (form : FloatForm) : List (String × Value) → List (Option String × Document)
  | [] => []
  | (name, value) :: fields => (some name, value.documentIn form) :: memberDocuments form fields

end

/-- The document a value is written as. -/
def Value.document (value : Value) : Document := value.documentIn .spelled

/-- Read a text as a value. -/
def Value.parse? (s : String) : Option Value := do
  let document ← Document.parse? s
  document.value? deepest

/-- The field of an object. -/
def Value.field? : Value → String → Option Value
  | .obj fields, name => List.lookup name fields
  | _, _ => none

end Engram.Json
