import Engram.Number.Power

/-!
Binary floating-point values as exact numbers. A finite value is a sign, a natural mantissa and a
power of two; decimal text is made from these three, never from floating-point arithmetic.
-/

namespace Engram.Number

/-- A finite binary value `± mantissa * 2 ^ exponent`. `gapHalved` tells that the value below it is
only half as far away as the value above it, which happens at powers of two. -/
structure Dyadic where
  negative : Bool
  mantissa : Nat
  exponent : Int
  gapHalved : Bool
  deriving DecidableEq, Repr

/-- What the bits of a binary value say: a number, an infinity, or neither. -/
inductive Reading where
  | finite (value : Dyadic)
  | infinite (negative : Bool)
  | undefined
  deriving DecidableEq, Repr

/-- Read the bits of an interchange format with `exponentBits` and `fractionBits`. -/
def Reading.ofBits (exponentBits fractionBits bits : Nat) : Reading :=
  let fraction := bits % twoTo fractionBits
  let field := bits / twoTo fractionBits % twoTo exponentBits
  let negative := bits / twoTo (fractionBits + exponentBits) % 2 == 1
  let least : Int := 2 - twoTo (exponentBits - 1) - fractionBits
  if field = twoTo exponentBits - 1 then
    if fraction = 0 then .infinite negative else .undefined
  else if field = 0 then .finite ⟨negative, fraction, least, false⟩
  else
    .finite ⟨negative, twoTo fractionBits + fraction, least + field - 1, fraction == 0 && field != 1⟩

def Reading.ofFloat (x : Float) : Reading :=
  .ofBits 11 52 x.toBits.toNat

def Reading.ofFloat32 (x : Float32) : Reading :=
  .ofBits 8 23 x.toBits.toNat

/-- A value of single precision in double precision, which holds every such value as it is: the
mantissa times a power of two, whose bits are its biased exponent in front of an empty fraction. -/
def widen (x : Float32) : Float :=
  let signed (negative : Bool) (magnitude : Float) := if negative then -magnitude else magnitude
  match Reading.ofFloat32 x with
  | .finite d =>
    let power : Float := .ofBits ((d.exponent + 1023).toNat.toUInt64 <<< 52)
    signed d.negative (d.mantissa.toUInt64.toFloat * power)
  | .infinite negative => signed negative (1.0 / 0.0)
  | .undefined => 0.0 / 0.0

/-- The fraction `numerator / denominator` of the magnitude. -/
def Dyadic.ratio (d : Dyadic) : Nat × Nat :=
  (d.mantissa * twoTo d.exponent.toNat, twoTo (-d.exponent).toNat)

/-- The sign as it is written in front of the digits. -/
def signText (negative : Bool) : String :=
  if negative then "-" else ""

end Engram.Number
