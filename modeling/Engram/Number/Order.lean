import Engram.Number.Power

/-!
A total order on floating-point values. It agrees with the usual order on numbers and puts negative
zero before zero. Undefined values come after everything else, or before it if their sign is set.
-/

namespace Engram.Number

/-- A double with all its bits. Arithmetic takes it as a float and knows a single undefined value;
comparing tells undefined values apart by their bits. -/
structure Double where
  bits : UInt64
  deriving DecidableEq, Repr

namespace Double

def ofFloat (x : Float) : Double := ⟨x.toBits⟩

def toFloat (d : Double) : Float := .ofBits d.bits

instance : OfScientific Double where
  ofScientific mantissa isNegative exponent :=
    ofFloat (.ofScientific mantissa isNegative exponent)

def isNaN (d : Double) : Bool := d.toFloat.isNaN

/-- A natural number that grows with the value. -/
def rank (d : Double) : Nat :=
  let bits := d.bits.toNat
  if bits < twoTo 63 then twoTo 63 + bits else twoTo 64 - 1 - bits

/-- Compare by the total order. -/
def compareTotal (c d : Double) : Ordering :=
  compare c.rank d.rank

/-- Keep a value between two bounds. An undefined value stays as it is. -/
def clamp (low high : Float) (d : Double) : Double :=
  if d.toFloat < low then ofFloat low
  else if high < d.toFloat then ofFloat high
  else d

/-- What an operation without a result gives: undefined, with the sign set. -/
def indefinite : Double := ⟨0xfff8000000000000⟩

/-- What an operation makes of an undefined operand: the same with its first payload bit set. -/
def quiet (d : Double) : Double := ⟨d.bits ||| 0x0008000000000000⟩

end Double

/-- A natural number that grows with the value. -/
def rank (x : Float) : Nat := (Double.ofFloat x).rank

/-- Compare by the total order. -/
def compareTotal (x y : Float) : Ordering :=
  compare (rank x) (rank y)

/-- Keep a value between two bounds. An undefined value stays as it is. -/
def clamp (low high x : Float) : Float :=
  let x := if x < low then low else x
  if high < x then high else x

/-- The larger of two values, the second among equals; an undefined one gives way to the other. -/
def largest (x y : Float) : Float :=
  if x.isNaN then y
  else if y.isNaN then x
  else if y < x then x else y

/-- The least value a comparison can find. -/
def leastValue : Float := -(1.0 / 0.0)

end Engram.Number
