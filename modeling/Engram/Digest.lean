/-!
A keyed 64-bit digest of bytes: the add-rotate-xor construction with one round for each word and
three rounds at the end, under the all-zero key. Words of a text are placed by it.
-/

namespace Engram.Digest

/-- The four words of the state. -/
structure State where
  v0 : UInt64
  v1 : UInt64
  v2 : UInt64
  v3 : UInt64

def rotate (x : UInt64) (n : UInt64) : UInt64 :=
  (x <<< n) ||| (x >>> (64 - n))

/-- The state of the all-zero key. -/
def start : State :=
  ⟨0x736f6d6570736575, 0x646f72616e646f6d, 0x6c7967656e657261, 0x7465646279746573⟩

def round (s : State) : State :=
  let v0 := s.v0 + s.v1
  let v1 := rotate s.v1 13 ^^^ v0
  let v0 := rotate v0 32
  let v2 := s.v2 + s.v3
  let v3 := rotate s.v3 16 ^^^ v2
  let v0 := v0 + v3
  let v3 := rotate v3 21 ^^^ v0
  let v2 := v2 + v1
  let v1 := rotate v1 17 ^^^ v2
  let v2 := rotate v2 32
  ⟨v0, v1, v2, v3⟩

/-- Take one word into the state. -/
def absorb (s : State) (word : UInt64) : State :=
  let s := round { s with v3 := s.v3 ^^^ word }
  { s with v0 := s.v0 ^^^ word }

/-- Up to eight bytes as a word, the first byte least significant. -/
def wordOf (bytes : List UInt8) : UInt64 :=
  bytes.foldr (fun byte word => word <<< 8 ||| byte.toUInt64) 0

/-- Absorb the whole words of a message; at the end, the rest together with the total length. -/
def absorbAll (total : Nat) : List UInt8 → State → State
  | a :: b :: c :: d :: e :: f :: g :: h :: rest, s =>
    absorbAll total rest (absorb s (wordOf [a, b, c, d, e, f, g, h]))
  | rest, s => absorb s (wordOf rest ||| total.toUInt64 <<< 56)

def finish (s : State) : UInt64 :=
  let s := round (round (round { s with v2 := s.v2 ^^^ 0xff }))
  s.v0 ^^^ s.v1 ^^^ s.v2 ^^^ s.v3

def ofBytes (bytes : List UInt8) : UInt64 :=
  finish (absorbAll bytes.length bytes start)

/-- The digest of a text: its UTF-8 bytes and a closing byte that no text contains. -/
def ofText (s : String) : UInt64 :=
  ofBytes (s.toUTF8.toList ++ [0xff])

end Engram.Digest
