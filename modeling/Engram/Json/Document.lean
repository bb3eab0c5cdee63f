import Engram.Json.Literal

/-!
A JSON text as it is written: fields keep their order and may repeat, numbers keep their spelling.
A document that was never a text may also hold a float as it is. A string whose escapes leave a
surrogate without its partner has no text; such a string is harmless where it is skipped and an
error where it is read.
-/

namespace Engram.Json

inductive Document where
  | null
  | bool (b : Bool)
  | num (literal : Literal)
  | float (x : Float)
  | str (text : Option String)
  | arr (items : List Document)
  | obj (fields : List (Option String × Document))
  deriving Inhabited

/-- How deeply arrays and objects may nest where a document is read. -/
def deepest : Nat := 127

end Engram.Json
