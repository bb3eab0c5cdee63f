import Engram.Number.Dyadic
import Engram.Number.Fixed

/-!
The shortest decimal that reads back as a given binary value. Every real closer to the value than
to its neighbours rounds to it, and the ends of that interval do so exactly when the mantissa is
even. The fewest digits with a decimal in the interval win, and among those the nearest decimal.
-/

namespace Engram.Number

/-- `digits * 10 ^ exponent`, where `digits` has no trailing zero. -/
structure Decimal where
  digits : Nat
  exponent : Int
  deriving DecidableEq, Repr

/-- Which way a value goes that lies halfway between two decimals of equal length. -/
inductive Tie where
  | up
  | even
  deriving DecidableEq, Repr

/-- Divide out factors of ten, at most `fuel` of them. -/
def stripZeros : Nat → Nat → Int → Decimal
  | 0, digits, exponent => ⟨digits, exponent⟩
  | fuel + 1, digits, exponent =>
    if digits % 10 = 0 && digits ≠ 0 then stripZeros fuel (digits / 10) (exponent + 1)
    else ⟨digits, exponent⟩

/-- The least `k` with `numerator / denominator < 10 ^ k`, given the binary order of magnitude. -/
def decimalMagnitude (numerator denominator : Nat) (binaryMagnitude : Int) : Int :=
  let below (k : Int) : Bool := numerator * tenTo (-k).toNat < denominator * tenTo k.toNat
  let estimate := binaryMagnitude * 1233 / 4096
  if below estimate then estimate
  else if below (estimate + 1) then estimate + 1
  else estimate + 2

/-- The decimal of the grid `10 ^ place` that reads back as `d` and is nearest to it, if any. All
quantities are scaled by `4 * 2 ^ -d.exponent` and a power of ten to make them integers. -/
def Dyadic.onGrid (tie : Tie) (d : Dyadic) (place : Int) : Option Nat :=
  let two := twoTo (d.exponent - 2).toNat * tenTo (-place).toNat
  let step := twoTo (2 - d.exponent).toNat * tenTo place.toNat
  let value := 4 * d.mantissa * two
  let low := (4 * d.mantissa - if d.gapHalved then 1 else 2) * two
  let high := (4 * d.mantissa + 2) * two
  let closed := d.mantissa % 2 == 0
  let count := value / step
  let floor := count * step
  let ceiling := floor + step
  let floorFits := floor > low || (closed && floor == low)
  let ceilingFits := ceiling < high || (closed && ceiling == high)
  if floorFits && ceilingFits then
    let toFloor := value - floor
    let toCeiling := ceiling - value
    if toFloor < toCeiling then some count
    else if toCeiling < toFloor then some (count + 1)
    else match tie with
      | .up => some (count + 1)
      | .even => some (if count % 2 == 0 then count else count + 1)
  else if floorFits then some count
  else if ceilingFits then some (count + 1)
  else none

/-- Try one more digit at a time, from `used + 1` digits on. -/
def Dyadic.search (tie : Tie) (d : Dyadic) (magnitude : Int) : Nat → Nat → Decimal
  | 0, _ => ⟨d.mantissa, 0⟩
  | fuel + 1, used =>
    let place := magnitude - (used + 1 : Nat)
    match d.onGrid tie place with
    | some count => stripZeros (used + 2) count place
    | none => d.search tie magnitude fuel (used + 1)

/-- Seventeen digits always suffice for the formats in use. -/
def mostDigits : Nat := 17

def Dyadic.shortest (tie : Tie) (d : Dyadic) : Decimal :=
  if d.mantissa = 0 then ⟨0, 0⟩
  else
    let (numerator, denominator) := d.ratio
    let magnitude := decimalMagnitude numerator denominator (d.mantissa.log2 + d.exponent)
    d.search tie magnitude mostDigits 0

/-- Write a decimal without an exponent, and without a point if it is whole. -/
def Decimal.positional (d : Decimal) : String :=
  if 0 ≤ d.exponent then padded 1 (d.digits * tenTo d.exponent.toNat)
  else placesText (-d.exponent).toNat d.digits

/-- The plain text of a number: the shortest digits that read back. -/
def plain (x : Float) : String :=
  match Reading.ofFloat x with
  | .finite d => signText d.negative ++ (d.shortest .up).positional
  | .infinite negative => signText negative ++ "inf"
  | .undefined => "NaN"

end Engram.Number
