import Engram.Json.Writer

/-!
Numbers without a text. A float that is not finite is written as null, and a text with such a gap
does not read back. A gap is told by the width of the number and by where its null ends.
-/

namespace Engram.Json

structure Gap where
  /-- Whether the number belongs to a vector. Vectors hold narrow floats, fields hold wide ones. -/
  inVector : Bool
  /-- How many bytes of the text lead up to the end of the null. -/
  column : Nat
  deriving DecidableEq, Repr

def Gap.message (g : Gap) : String :=
  let width := if g.inVector then "f32" else "f64"
  s!"invalid type: null, expected {width} at line 1 column {g.column}"

mutual

/-- Where the text of a document ends that starts after `start` bytes, or its first gap. -/
def Document.extent (inVector : Bool) (start : Nat) : Document → Except Gap Nat
  | .null => .error ⟨inVector, start + 4⟩
  | .arr items => extentOfItems (start + 1) items
  | .obj fields => extentOfFields (start + 1) fields
  | document => .ok (start + document.leafText.utf8ByteSize)

/-- Every item takes a byte more, for the comma or the bracket after it. -/
def extentOfItems (start : Nat) : List Document → Except Gap Nat
  | [] => .ok (start + 1)
  | [item] => (item.extent true start).map (· + 1)
  | item :: next :: items => do
    let stop ← item.extent true start
    extentOfItems (stop + 1) (next :: items)

def extentOfFields (start : Nat) : List (Option String × Document) → Except Gap Nat
  | [] => .ok (start + 1)
  | [(name, document)] =>
    (document.extent false (start + (fieldText name).utf8ByteSize + 1)).map (· + 1)
  | (name, document) :: next :: fields => do
    let stop ← document.extent false (start + (fieldText name).utf8ByteSize + 1)
    extentOfFields (stop + 1) (next :: fields)

end

/-- The first gap in the compact text of a document. -/
def Document.gap? (document : Document) : Option Gap :=
  match document.extent false 0 with
  | .ok _ => none
  | .error gap => some gap

end Engram.Json
