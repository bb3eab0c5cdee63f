import Engram.Number.Dyadic

/-!
Decimal text with a fixed number of places. The exact binary value is rounded once, to the nearest
multiple of the last place, and a value halfway between two multiples goes to the even one.
-/

namespace Engram.Number

/-- The integer nearest to `numerator / denominator`, the even one if two are equally near. -/
def roundHalfEven (numerator denominator : Nat) : Nat :=
  let quotient := numerator / denominator
  let twice := 2 * (numerator % denominator)
  if twice < denominator || (twice == denominator && quotient % 2 == 0) then quotient
  else quotient + 1

/-- Digits of `n`, padded on the left with zeros to at least `width`. -/
def padded (width n : Nat) : String :=
  let digits := Nat.toDigits 10 n
  String.ofList (List.replicate (width - digits.length) '0' ++ digits)

/-- `scaled / tenTo places`, written out. -/
def placesText (places scaled : Nat) : String :=
  if places = 0 then padded 1 scaled
  else padded 1 (scaled / tenTo places) ++ "." ++ padded places (scaled % tenTo places)

def Dyadic.fixed (places : Nat) (d : Dyadic) : String :=
  let (numerator, denominator) := d.ratio
  signText d.negative ++ placesText places (roundHalfEven (numerator * tenTo places) denominator)

def Reading.fixed (places : Nat) : Reading → String
  | .finite d => d.fixed places
  | .infinite negative => signText negative ++ "inf"
  | .undefined => "NaN"

/-- A number with exactly `places` decimals. A set sign bit always shows, on zero too. -/
def fixed (places : Nat) (x : Float) : String :=
  (Reading.ofFloat x).fixed places

end Engram.Number
