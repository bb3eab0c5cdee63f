/-!
The natural logarithm of one plus a number, for numbers that are not negative.

With `1 + x = 2 ^ k * (1 + f)` and `f` between the inverse of the square root of two and that root,
less one, the logarithm is `k * log 2 + log (1 + f)`. The second term is computed from
`s = f / (2 + f)`, since `log (1 + f) = 2 s + 2/3 s ^ 3 + 2/5 s ^ 5 + …`: a polynomial stands for
the tail of the series. The rounding error of `1 + x` goes in as a correction.
-/

namespace Engram.Number

/-- `1 + x` as a power of two times `1 + fraction`, and the error of the sum relative to it. -/
structure ScaledSum where
  exponent : Nat
  fraction : Float
  correction : Float
  /-- The fraction is so small that two terms of its series are enough. -/
  isTiny : Bool

namespace ScaledSum

/-- From this number on, adding one makes no difference. -/
def saturation : Float := 9007199254740992.0

/-- The sum of one and a number, and its rounding error relative to it. -/
def rounded (x : Float) : Float × Float :=
  if x < saturation then
    let sum := 1.0 + x
    let error := if sum < 2.0 then x - (sum - 1.0) else 1.0 - (sum - x)
    (sum, error / sum)
  else (x, 0.0)

/-- The sum of one and a number, scaled by a power of two to a number near one. -/
def ofSummand (x : Float) : ScaledSum :=
  let (sum, correction) := rounded x
  let bits := sum.toBits
  let exponent := (bits >>> 52).toNat - 1023
  let mantissa := bits &&& 0xfffffffffffff
  let high := (mantissa >>> 32).toNat
  if high < 0x6a09e then
    ⟨exponent, Float.ofBits (mantissa ||| 0x3ff0000000000000) - 1.0, correction, high = 0⟩
  else
    ⟨exponent + 1, Float.ofBits (mantissa ||| 0x3fe0000000000000) - 1.0, correction,
      (0x100000 - high) / 4 = 0⟩

/-- The logarithm of two, to the bits that a product with an exponent keeps. -/
def logTwoHigh : Float := 6.93147180369123816490e-01

/-- What is missing from it. -/
def logTwoLow : Float := 1.90821492927058770002e-10

/-- The tail of the series, as a polynomial in the square `z` of `f / (2 + f)`. -/
def tail (z : Float) : Float :=
  let z2 := z * z
  let z4 := z2 * z2
  let z6 := z4 * z2
  z * 6.666666666666735130e-01
    + z2 * (3.999999999940941908e-01 + z * 2.857142874366239149e-01)
    + z4 * (2.222219843214978396e-01 + z * 1.818357216161805012e-01)
    + z6 * (1.531383769920937332e-01 + z * 1.479819860511658591e-01)

/-- The logarithm of the sum. -/
def log (sum : ScaledSum) : Float :=
  let f := sum.fraction
  let k := sum.exponent.toFloat
  let low := k * logTwoLow + sum.correction
  let half := 0.5 * f * f
  if sum.isTiny then
    if f == 0.0 then k * logTwoHigh + (sum.correction + k * logTwoLow)
    else
      let square := half * (1.0 - 0.66666666666666666 * f)
      k * logTwoHigh - ((square - low) - f)
  else
    let s := f / (2.0 + f)
    k * logTwoHigh - ((half - (s * (half + tail (s * s)) + low)) - f)

end ScaledSum

/-- The natural logarithm of one plus a number that is not negative. -/
def logOnePlus (x : Float) : Float :=
  if x == 0.0 then x else (ScaledSum.ofSummand x).log

end Engram.Number
