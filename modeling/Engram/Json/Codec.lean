import Engram.Json.Value
import Engram.Number.Order

/-!
Types with a JSON form. Writing goes to values and reading comes from documents, so that a record
can refuse a field that is given twice and skip one it does not know. Reading carries the room
left for nesting.
-/

namespace Engram.Json

/-- Read a document, with the given room left for arrays and objects. -/
abbrev Decoder (α : Type) := Nat → Document → Option α

class Codec (α : Type) where
  encode : α → Value
  decode : Decoder α

export Codec (encode)

/-- Read a document from the top. -/
def decodeDocument {α : Type} [Codec α] (document : Document) : Option α :=
  Codec.decode deepest document

/-- Read a text. -/
def decodeText {α : Type} [Codec α] (s : String) : Option α := do
  decodeDocument (← Document.parse? s)

/-- Read a value, whose floats are taken as they are. -/
def decodeValue {α : Type} [Codec α] (value : Value) : Option α :=
  decodeDocument (value.documentIn .exact)

instance : Codec Bool where
  encode := .bool
  decode
    | _, .bool b => some b
    | _, _ => none

instance : Codec String where
  encode := .str
  decode
    | _, .str text => text
    | _, _ => none

def numberOf? : Document → Option Numeral
  | .num literal => literal.number?
  | .float x => some (.float x)
  | _ => none

/-- Integers from `low` to `high`. -/
def decodeInt (low high : Int) : Decoder Int := fun _ document =>
  match numberOf? document with
  | some (.int n) => if low ≤ n && n ≤ high then some n else none
  | _ => none

/-- Counts are unsigned 64-bit words. -/
instance : Codec Nat where
  encode n := .int n
  decode room document := (decodeInt 0 wordMax room document).map Int.toNat

instance : Codec UInt64 where
  encode n := .int n.toNat
  decode room document := (Codec.decode room document : Option Nat).map Nat.toUInt64

/-- Integers are signed 64-bit words. -/
instance : Codec Int where
  encode := .int
  decode := decodeInt (-Number.twoTo 63) (Number.twoTo 63 - 1)

/-- A signed or unsigned 64-bit word as the nearest float. -/
def floatOfInt (n : Int) : Float :=
  if n < 0 then -(n.natAbs.toUInt64.toFloat) else n.toNat.toUInt64.toFloat

instance : Codec Float where
  encode := .float
  decode _ document :=
    match numberOf? document with
    | some (.int n) => some (floatOfInt n)
    | some (.float x) => some x
    | none => none

instance : Codec Number.Double where
  encode d := .float d.toFloat
  decode room document := (Codec.decode room document : Option Float).map .ofFloat

/-- A signed or unsigned 64-bit word as the nearest narrow float. -/
def narrowOfInt (n : Int) : Float32 :=
  if n < 0 then -(n.natAbs.toUInt64.toFloat32) else n.toNat.toUInt64.toFloat32

/-- A narrow float with a point or an exponent is read in full width and then rounded. -/
instance : Codec Float32 where
  encode := .single
  decode _ document :=
    match numberOf? document with
    | some (.int n) => some (narrowOfInt n)
    | some (.float x) => some x.toFloat32
    | none => none

instance {α : Type} [Codec α] : Codec (Option α) where
  encode
    | some a => encode a
    | none => .null
  decode
    | _, .null => some none
    | room, document => (Codec.decode room document).map some

instance {α : Type} [Codec α] : Codec (List α) where
  encode items := .arr (items.map encode)
  decode
    | room + 1, .arr items => items.mapM (Codec.decode room)
    | _, _ => none

/-- A map with arbitrary values, ordered by name. -/
instance : Codec Map where
  encode := .obj
  decode room document :=
    match document.value? room with
    | some (.obj fields) => some fields
    | _ => none

instance : Codec Value where
  encode := id
  decode room document := document.value? room

/-- The fields of a document that is being read as a record. -/
structure Fields where
  room : Nat
  items : List (String × Document)
  /-- The names are those of an object, not of places in an array. -/
  named : Bool

namespace Fields

/-- The fields of a document: those of an object, where every name must have a text, or the items of
an array, which are the first fields in the order of `names`. -/
def of? (names : List String) : Decoder Fields
  | room + 1, .obj fields => do
    let items ← fields.mapM fun (name, document) => name.map (·, document)
    return ⟨room, items, true⟩
  | room + 1, .arr items =>
    if items.length ≤ names.length then some ⟨room, names.zip items, false⟩ else none
  | _, _ => none

/-- The document of a field, which must not be given twice. -/
def find? (f : Fields) (name : String) : Option (Option Document) :=
  match f.items.filter (·.1 == name) with
  | [] => some none
  | [(_, document)] => some (some document)
  | _ => none

/-- A field that must be there. -/
def need {α : Type} [Codec α] (f : Fields) (name : String) : Option α := do
  Codec.decode f.room (← (← f.find? name))

/-- A field that may be missing in an object. -/
def maybe {α : Type} [Codec α] (f : Fields) (name : String) : Option (Option α) := do
  match ← f.find? name with
  | some document => Codec.decode f.room document
  | none => if f.named then some none else none

/-- A field with a value to use where it is missing. -/
def orDefault {α : Type} [Codec α] (f : Fields) (name : String) (default : α) : Option α := do
  match ← f.find? name with
  | some document => Codec.decode f.room document
  | none => return default

/-- The tag that picks the form of a record. All other fields are read through, known or not. -/
def tag (f : Fields) (name : String) : Option String := do
  let _ ← f.items.mapM fun field => field.2.value? f.room
  f.need name

end Fields

/-- Read an object, or an array of fields in the order of `names`, as a record. -/
def record {α : Type} (names : List String) (read : Fields → Option α) : Decoder α :=
  fun room document => do read (← Fields.of? names room document)

/-- Read a record whose form is picked by a tag: an object, or an array of the tag and then all
parts of the form. -/
def tagged {α : Type} (name : String) (parts : String → List String) (read : Fields → Option α) :
    Decoder α
  | room + 1, .arr (tag :: items) => do
    let names := parts (← Codec.decode room tag)
    if items.length = names.length then read ⟨room, (name, tag) :: names.zip items, false⟩ else none
  | room, document => record [] read room document

/-- The name of an alternative without parts: a string, or an object with the name alone and
nothing under it. -/
def decodeName : Decoder String
  | _, .str text => text
  | _ + 1, .obj [(name, .null)] => name
  | _, _ => none

end Engram.Json
