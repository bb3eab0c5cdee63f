import Engram.Number.Shortest

/-!
Number literals of a JSON text, as written and as read. A literal without a point or an exponent
is an integer when a signed or unsigned 64-bit word holds it. Every other literal is a float: its
leading digits, as many as an unsigned 64-bit word holds, scaled by one power of ten at a time.
-/

namespace Engram.Json

/-- A number as it is spelled. Digits are values from zero to nine, most significant first. -/
structure Literal where
  negative : Bool
  whole : List Nat
  fraction : Option (List Nat)
  exponent : Option Int
  deriving DecidableEq, Repr

/-- A number as it is read. -/
inductive Numeral where
  | int (n : Int)
  | float (x : Float)

/-- The greatest unsigned 64-bit word. -/
def wordMax : Nat := Number.twoTo 64 - 1

/-- Leading digits taken into a word, and the power of ten they still stand for. -/
structure Significand where
  word : Nat
  exponent : Int
  full : Bool

namespace Significand

/-- Take a digit of the whole part. Once a digit does not fit, it and all later ones only count as
places. -/
def takeWhole (s : Significand) (digit : Nat) : Significand :=
  if s.full || wordMax < s.word * 10 + digit then ⟨s.word, s.exponent + 1, true⟩
  else ⟨s.word * 10 + digit, s.exponent, false⟩

/-- Take a digit of the fraction. Once a digit does not fit, it and all later ones are dropped. -/
def takeFraction (s : Significand) (digit : Nat) : Significand :=
  if s.full || wordMax < s.word * 10 + digit then ⟨s.word, s.exponent, true⟩
  else ⟨s.word * 10 + digit, s.exponent - 1, false⟩

end Significand

/-- The greatest power of ten that is a float. -/
def greatestPower : Nat := 308

def powerOfTen (n : Nat) : Float :=
  Float.ofScientific 1 false n

/-- Divide by the greatest power of ten until the rest of the exponent is one division away. -/
def scaleDown : Nat → Float → Nat → Float
  | 0, x, _ => x
  | fuel + 1, x, places =>
    if places ≤ greatestPower then x / powerOfTen places
    else if x == 0.0 then x
    else scaleDown fuel (x / powerOfTen greatestPower) (places - greatestPower)

/-- `word * 10 ^ exponent` as a float, or nothing where it exceeds every float. -/
def scale (word : Nat) (exponent : Int) : Option Float :=
  let x := word.toUInt64.toFloat
  if exponent < 0 then
    let places := (-exponent).toNat
    some (scaleDown (places / greatestPower + 1) x places)
  else if exponent.toNat ≤ greatestPower then
    let y := x * powerOfTen exponent.toNat
    if y.isInf then none else some y
  else if x == 0.0 then some x
  else none

namespace Literal

/-- Digits of a natural number. -/
def digitsOf (n : Nat) : List Nat :=
  (Nat.toDigits 10 n).map fun c => c.toNat - '0'.toNat

def natural (digits : List Nat) : Nat :=
  digits.foldl (fun n digit => n * 10 + digit) 0

/-- The float a literal stands for. -/
def float? (l : Literal) : Option Float :=
  let whole := l.whole.foldl Significand.takeWhole ⟨0, 0, false⟩
  let all := (l.fraction.getD []).foldl Significand.takeFraction ⟨whole.word, whole.exponent, false⟩
  (scale all.word (all.exponent + l.exponent.getD 0)).map fun x => if l.negative then -x else x

/-- What a literal stands for. Zero with a minus sign is a float, as no integer keeps its sign. -/
def number? (l : Literal) : Option Numeral :=
  if l.fraction.isNone && l.exponent.isNone then
    let n := natural l.whole
    if l.negative then
      if 0 < n && n ≤ Number.twoTo 63 then some (.int (-n)) else l.float?.map .float
    else if n ≤ wordMax then some (.int n) else l.float?.map .float
  else l.float?.map .float

def ofInt (n : Int) : Literal :=
  ⟨n < 0, digitsOf n.natAbs, none, none⟩

end Literal

/-- How a float is laid out. The order of a number is the place of its first digit: one for units,
two for tens, zero for tenths. A number is spelled positionally if it is zero or if its order is
between the two bounds, and with an exponent otherwise. -/
structure Layout where
  least : Int
  greatest : Int
  deriving DecidableEq, Repr

namespace Layout

/-- Wide floats are spelled positionally from `10 ^ -5` up to `10 ^ 16`. -/
def wide : Layout := ⟨-4, 16⟩

/-- Narrow floats are spelled positionally from `10 ^ -6` up to `10 ^ 13`. -/
def narrow : Layout := ⟨-5, 13⟩

def isPositional (layout : Layout) (d : Number.Decimal) : Bool :=
  let order := d.exponent + (Nat.toDigits 10 d.digits).length
  d.digits == 0 || (layout.least ≤ order && order ≤ layout.greatest)

end Layout

/-- The digits of a decimal around the point: at least one before it and one after it. -/
def positionalLiteral (negative : Bool) (digits : List Nat) (exponent : Int) : Literal :=
  let places := (-exponent).toNat
  let digits := List.replicate (places + 1 - digits.length) 0 ++ digits
    ++ List.replicate exponent.toNat 0
  let fraction := digits.drop (digits.length - places)
  ⟨negative, digits.take (digits.length - places),
    some (if fraction.isEmpty then [0] else fraction), none⟩

/-- One digit before the point, and an exponent. -/
def scientificLiteral (negative : Bool) (digits : List Nat) (exponent : Int) : Literal :=
  let fraction := digits.drop 1
  ⟨negative, digits.take 1, if fraction.isEmpty then none else some fraction,
    some (exponent + fraction.length)⟩

namespace Literal

/-- The shortest literal that reads back as a finite number. Halfway cases of the shortest digits go
to the even digit. -/
def ofDyadic (layout : Layout) (d : Number.Dyadic) : Literal :=
  let decimal := d.shortest .even
  let digits := digitsOf decimal.digits
  if layout.isPositional decimal then positionalLiteral d.negative digits decimal.exponent
  else scientificLiteral d.negative digits decimal.exponent

def digitsText (digits : List Nat) : String :=
  String.ofList (digits.map Nat.digitChar)

def fractionText : Option (List Nat) → String
  | none => ""
  | some digits => "." ++ digitsText digits

/-- An exponent always has a sign. -/
def exponentText : Option Int → String
  | none => ""
  | some n => (if n < 0 then "e-" else "e+") ++ digitsText (digitsOf n.natAbs)

/-- A number as it is spelled. -/
def text (l : Literal) : String :=
  Number.signText l.negative ++ digitsText l.whole ++ fractionText l.fraction
    ++ exponentText l.exponent

end Literal

end Engram.Json
