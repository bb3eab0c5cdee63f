import Engram.Json.Codec

/-!
Identifiers: 128 bits, written as 32 hexadecimal digits in five groups.
-/

namespace Engram

structure Uid where
  bits : BitVec 128
  deriving DecidableEq, Repr, Hashable

namespace Uid

instance : Ord Uid where
  compare a b := compare a.bits.toNat b.bits.toNat

/-- All 32 digits, in lower case. -/
def digits (id : Uid) : List Char :=
  let n := id.bits.toNat
  (List.range 32).map fun i => Nat.digitChar ((n >>> (4 * (31 - i))) % 16)

/-- The digits without separators. -/
def simple (id : Uid) : String :=
  String.ofList id.digits

/-- The digits in groups of 8, 4, 4, 4 and 12. -/
def text (id : Uid) : String :=
  let digits := id.digits
  let group (start count : Nat) : String := String.ofList ((digits.drop start).take count)
  "-".intercalate [group 0 8, group 8 4, group 12 4, group 16 4, group 20 12]

/-- The identifier of exactly 32 digits, in either case. -/
def ofDigits? (cs : List Char) : Option Uid := do
  let values ← cs.mapM Json.hexValue?
  if values.length = 32 then
    some ⟨BitVec.ofNat 128 (values.foldl (fun n digit => n * 16 + digit) 0)⟩
  else none

/-- The digits of five groups, apart by hyphens. -/
def ofGroups? (cs : List Char) : Option Uid :=
  let isMark (i : Nat) : Bool := i == 8 || i == 13 || i == 18 || i == 23
  let marked := cs.zipIdx
  if cs.length = 36 && (marked.filter fun p => isMark p.2).all (·.1 = '-') then
    ofDigits? ((marked.filter fun p => !isMark p.2).map (·.1))
  else none

/-- Read an identifier: 32 digits, or five groups, which braces may enclose or a resource name may
precede. -/
def parse? (s : String) : Option Uid :=
  let cs := s.toList
  if cs.length = 32 then ofDigits? cs
  else if cs.length = 38 && cs.head? = some '\x7b' && cs.getLast? = some '\x7d' then
    ofGroups? (cs.drop 1).dropLast
  else if (cs.take 9).map Char.toLower = "urn:uuid:".toList then ofGroups? (cs.drop 9)
  else ofGroups? cs

instance : Json.Codec Uid where
  encode id := .str id.text
  decode
    | _, .str text => text.bind parse?
    | _, _ => none

end Uid

end Engram
