import Engram.Number.Order
import Mathlib.Algebra.Group.Int.Defs
import Mathlib.Algebra.Group.Nat.Defs

/-! The total order on floating-point values, in terms of the order on numbers. Where two values can
be compared as numbers and differ, it is that order. Negative zero comes before zero, and an
undefined value after everything else; there is only one, so no two values are level. -/
namespace Engram.Number

open Float.Model
open UnpackedFloat (Sign)

/-- The sign bit is set. -/
def isNegative (x : Float) : Bool := 2 ^ 63 ≤ x.toBits.toNat

/-- All bits but the sign, as one number: the exponent field and the fraction behind it. -/
def magnitude (x : Float) : Nat := x.toBits.toNat % 2 ^ 63

/-- The magnitude of an infinite value. -/
def infiniteMagnitude : Nat := 2047 * 2 ^ 52

/-- A signed number that grows with the value. Both zeros have the same. -/
def height (negative : Bool) (magnitude : Nat) : Int :=
  if negative then -magnitude else magnitude

def signOf (negative : Bool) : Sign := if negative then .negative else .positive

/-- What a sign and a magnitude are unpacked to. A number keeps its fraction as long as the exponent
field is zero, and from then on has one more digit in front of it. -/
inductive Unpacks (negative : Bool) (magnitude : Nat) : UnpackedFloat → Prop where
  | undefined (positive : negative = false) (only : magnitude = infiniteMagnitude + 2 ^ 51) :
      Unpacks negative magnitude .notANumber
  | infinite (least : magnitude = infiniteMagnitude) :
      Unpacks negative magnitude (.infinity (signOf negative))
  | zero (none : magnitude = 0) : Unpacks negative magnitude (.zero (signOf negative))
  | small {m : Nat} {e : Int} {pos : 0 < m} (digits : m = magnitude)
      (few : magnitude < 2 ^ 52) (power : e = -1074) :
      Unpacks negative magnitude (.finite (signOf negative) m e pos)
  | large {m : Nat} {e : Int} {pos : 0 < m} (digits : m = 2 ^ 52 + magnitude % 2 ^ 52)
      (many : 2 ^ 52 ≤ magnitude) (bounded : magnitude < infiniteMagnitude)
      (power : e = magnitude / 2 ^ 52 - 1075) :
      Unpacks negative magnitude (.finite (signOf negative) m e pos)

section Fields

variable (b : BitVec Format.binary64.numBits)

theorem toNat_unpackExponent :
    (UnpackedFloat.unpackExponent b).toNat = b.toNat / 2 ^ 52 % 2 ^ 11 := by
  simp [UnpackedFloat.unpackExponent, Nat.shiftRight_eq_div_pow]

theorem toNat_unpackMantissa : (UnpackedFloat.unpackMantissa b).toNat = b.toNat % 2 ^ 52 := by
  simp [UnpackedFloat.unpackMantissa]

theorem toNat_unpackSign : (UnpackedFloat.unpackSign b).toNat = b.toNat / 2 ^ 63 % 2 := by
  change (b.extractLsb 63 63).toNat = _
  rw [BitVec.extractLsb_toNat, Nat.shiftRight_eq_div_pow]

theorem ofBitVec_unpackSign :
    Sign.ofBitVec (UnpackedFloat.unpackSign b) = signOf (2 ^ 63 ≤ b.toNat) := by
  have hbits : b.toNat < 2 ^ 64 := b.isLt
  have hsign := toNat_unpackSign b
  unfold Sign.ofBitVec signOf
  by_cases hneg : 2 ^ 63 ≤ b.toNat
  · have hset : UnpackedFloat.unpackSign b ≠ 0#1 := by
      intro h
      rw [h, BitVec.toNat_zero] at hsign
      omega
    rw [if_neg hset, if_pos (decide_eq_true hneg)]
  · have hclear : UnpackedFloat.unpackSign b = 0#1 := by
      apply BitVec.eq_of_toNat_eq
      rw [hsign, BitVec.toNat_zero]
      omega
    rw [if_pos hclear, decide_eq_false hneg]
    rfl

theorem toNat_append_one (m : BitVec 52) : (1#1 ++ m).toNat = 2 ^ 52 + m.toNat := by
  have hor := Nat.two_pow_add_eq_or_of_lt m.isLt 1
  rw [BitVec.toNat_append, BitVec.toNat_one, Nat.shiftLeft_eq, Nat.one_mul, ← hor, Nat.mul_one]
  decide

end Fields

/-- The bits of a value are unpacked by these rules. -/
theorem unpacks (x : Float) : Unpacks (isNegative x) (magnitude x) x.toModel.unpack := by
  have hbits : x.toBits.toNat < 2 ^ 64 := x.toBits.toBitVec.isLt
  let b : BitVec Format.binary64.numBits := x.toModel.toBits.toBitVec
  have hb : b.toNat = x.toBits.toNat := rfl
  have hexponent := toNat_unpackExponent b
  have hmantissa := toNat_unpackMantissa b
  have hsign := ofBitVec_unpackSign b
  rw [hb] at hexponent hmantissa hsign
  have hnegative : isNegative x = decide (2 ^ 63 ≤ x.toBits.toNat) := rfl
  have hmagnitude : magnitude x = x.toBits.toNat % 2 ^ 63 := rfl
  change Unpacks _ _ (UnpackedFloat.unpack Format.binary64 b)
  unfold UnpackedFloat.unpack
  dsimp only
  rw [hsign, ← hnegative]
  by_cases hfull : UnpackedFloat.unpackExponent b = -1#_
  · rw [if_pos hfull]
    have hfield : x.toBits.toNat / 2 ^ 52 % 2 ^ 11 = 2047 := by
      rw [← hexponent, hfull]
      rfl
    by_cases hnone : UnpackedFloat.unpackMantissa b = 0#_
    · rw [if_pos hnone]
      rw [hnone, BitVec.toNat_zero] at hmantissa
      exact .infinite (by rw [hmagnitude, infiniteMagnitude]; omega)
    · rw [if_neg hnone]
      -- Only one undefined value is valid, and its sign bit is not set.
      have honly := congrArg BitVec.toNat (x.toModel.valid.eq_packedNaN hfull hnone)
      have hbits : x.toBits.toNat = 2047 * 2 ^ 52 + 2 ^ 51 := honly
      refine .undefined ?_ ?_
      · rw [hnegative, hbits]
        decide
      · rw [hmagnitude, hbits]
        rfl
  · rw [if_neg hfull]
    have hfield : x.toBits.toNat / 2 ^ 52 % 2 ^ 11 ≠ 2047 := by
      rw [← hexponent]
      exact fun h => hfull (BitVec.eq_of_toNat_eq h)
    by_cases hlow : UnpackedFloat.unpackExponent b = 0#_
    · rw [if_pos hlow]
      rw [hlow, BitVec.toNat_zero] at hexponent
      by_cases hnone : UnpackedFloat.unpackMantissa b = 0#_
      · rw [dif_pos hnone]
        rw [hnone, BitVec.toNat_zero] at hmantissa
        exact .zero (by rw [hmagnitude]; omega)
      · rw [dif_neg hnone]
        refine .small ?_ ?_ ?_
        · rw [hmantissa, hmagnitude]
          omega
        · rw [hmagnitude]
          omega
        · rw [hlow]
          rfl
    · rw [if_neg hlow]
      have hpositive : x.toBits.toNat / 2 ^ 52 % 2 ^ 11 ≠ 0 := by
        rw [← hexponent]
        exact fun h => hlow (BitVec.eq_of_toNat_eq h)
      refine .large ?_ ?_ ?_ ?_
      · rw [toNat_append_one, hmantissa, hmagnitude]
        omega
      · rw [hmagnitude]
        omega
      · rw [hmagnitude, infiniteMagnitude]
        omega
      · rw [hexponent, hmagnitude]
        have hbias : (Format.binary64.exponentBias : Int) + Format.binary64.mantissaBitsWithoutImplicit =
          1075 := rfl
        rw [hbias]
        omega

section Compare

variable {negative negative' : Bool} {k k' : Nat} {u u' : UnpackedFloat}

/-- The magnitude of a number is made of its digits and its power of two. Beyond the least power all
digits are in use. -/
theorem Unpacks.eq_digits {s : Sign} {m : Nat} {e : Int} {pos : 0 < m}
    (h : Unpacks negative k (.finite s m e pos)) :
    (k : Int) = (e + 1074) * 2 ^ 52 + m ∧ -1074 ≤ e ∧ m < 2 ^ 53 ∧ (-1074 < e → 2 ^ 52 ≤ m) := by
  cases h with
  | small digits few power => omega
  | large digits many bounded power => omega

/-- Of two numbers the one with the greater power of two has the greater magnitude, and among equal
powers the one with the greater digits. -/
theorem Unpacks.compare_digits {s s' : Sign} {m m' : Nat} {e e' : Int} {pos : 0 < m} {pos' : 0 < m'}
    (first : Unpacks negative k (.finite s m e pos))
    (second : Unpacks negative' k' (.finite s' m' e' pos')) :
    (compare e e').then (compare m m') = compare k k' := by
  obtain ⟨hk, hleast, hbound, hfull⟩ := first.eq_digits
  obtain ⟨hk', hleast', hbound', hfull'⟩ := second.eq_digits
  rcases Int.lt_trichotomy e e' with hless | rfl | hmore
  · rw [Int.compare_eq_lt.mpr hless, Nat.compare_eq_lt.mpr (by omega : k < k')]
    rfl
  · rw [Int.compare_eq_eq.mpr rfl]
    change compare m m' = compare k k'
    rcases Nat.lt_trichotomy m m' with hless | rfl | hmore
    · rw [Nat.compare_eq_lt.mpr hless, Nat.compare_eq_lt.mpr (by omega : k < k')]
    · rw [Nat.compare_eq_eq.mpr rfl, Nat.compare_eq_eq.mpr (by omega : k = k')]
    · rw [Nat.compare_eq_gt.mpr hmore, Nat.compare_eq_gt.mpr (by omega : k' < k)]
  · rw [Int.compare_eq_gt.mpr hmore, Nat.compare_eq_gt.mpr (by omega : k' < k)]
    rfl

def isMinus : Sign → Bool
  | .negative => true
  | .positive => false

theorem isMinus_signOf : negative = isMinus (signOf negative) := by
  cases negative <;> rfl

theorem Unpacks.infinity_cases {s : Sign} (h : Unpacks negative k (.infinity s)) :
    negative = isMinus s ∧ k = infiniteMagnitude := by
  cases h with
  | infinite least => exact ⟨isMinus_signOf, least⟩

theorem Unpacks.zero_cases {s : Sign} (h : Unpacks negative k (.zero s)) : k = 0 := by
  cases h with
  | zero none => exact none

theorem Unpacks.finite_cases {s : Sign} {m : Nat} {e : Int} {pos : 0 < m}
    (h : Unpacks negative k (.finite s m e pos)) :
    negative = isMinus s ∧ 0 < k ∧ k < infiniteMagnitude := by
  unfold infiniteMagnitude
  cases h with
  | small digits few power => exact ⟨isMinus_signOf, by omega, by omega⟩
  | large digits many bounded power => exact ⟨isMinus_signOf, by omega, bounded⟩

theorem height_bounds (negative : Bool) (k : Nat) :
    -(k : Int) ≤ height negative k ∧ height negative k ≤ k := by
  unfold height
  split <;> omega

/-- Of two numbers the less one is the one of less height. -/
theorem Unpacks.compare_eq_lt (first : Unpacks negative k u) (second : Unpacks negative' k' u')
    (defined : u ≠ .notANumber) (defined' : u' ≠ .notANumber) :
    u.compare u' = some .lt ↔ height negative k < height negative' k' := by
  have hinfinite : 0 < infiniteMagnitude := by decide
  have hgreater : some Ordering.gt ≠ some .lt := by decide
  have hlevel : some Ordering.eq ≠ some .lt := by decide
  have hzero : ∀ negative, height negative 0 = 0 := by decide
  have hminus : ∀ k : Nat, height (isMinus .negative) k = -k := fun _ => rfl
  have hplus : ∀ k : Nat, height (isMinus .positive) k = k := fun _ => rfl
  -- Only two numbers of the same sign have to be compared by their digits.
  cases u with
  | notANumber => exact absurd rfl defined
  | infinity s =>
      obtain ⟨rfl, rfl⟩ := first.infinity_cases
      cases u' with
      | notANumber => exact absurd rfl defined'
      | infinity s' =>
          obtain ⟨rfl, rfl⟩ := second.infinity_cases
          cases s with
          | negative =>
              cases s' with
              | negative => exact iff_of_false hlevel (Int.lt_irrefl _)
              | positive => exact iff_of_true rfl (by rw [hminus, hplus]; omega)
          | positive =>
              cases s' with
              | negative => exact iff_of_false hgreater (by rw [hminus, hplus]; omega)
              | positive => exact iff_of_false hlevel (Int.lt_irrefl _)
      | zero s' =>
          rw [second.zero_cases, hzero]
          cases s with
          | negative => exact iff_of_true rfl (by rw [hminus]; omega)
          | positive => exact iff_of_false hgreater (by rw [hplus]; omega)
      | finite s' m' e' pos' =>
          obtain ⟨rfl, _, hbound'⟩ := second.finite_cases
          have hheight' := height_bounds (isMinus s') k'
          cases s with
          | negative => exact iff_of_true rfl (by rw [hminus]; omega)
          | positive => exact iff_of_false hgreater (by rw [hplus]; omega)
  | zero s =>
      rw [first.zero_cases, hzero]
      cases u' with
      | notANumber => exact absurd rfl defined'
      | infinity s' =>
          obtain ⟨rfl, rfl⟩ := second.infinity_cases
          cases s' with
          | negative => exact iff_of_false hgreater (by rw [hminus]; omega)
          | positive => exact iff_of_true rfl (by rw [hplus]; omega)
      | zero s' =>
          rw [second.zero_cases, hzero]
          exact iff_of_false hlevel (Int.lt_irrefl 0)
      | finite s' m' e' pos' =>
          obtain ⟨rfl, hpos', _⟩ := second.finite_cases
          cases s' with
          | negative => exact iff_of_false hgreater (by rw [hminus]; omega)
          | positive => exact iff_of_true rfl (by rw [hplus]; omega)
  | finite s m e pos =>
      obtain ⟨rfl, hpos, hbound⟩ := first.finite_cases
      cases u' with
      | notANumber => exact absurd rfl defined'
      | infinity s' =>
          obtain ⟨rfl, rfl⟩ := second.infinity_cases
          have hheight := height_bounds (isMinus s) k
          cases s' with
          | negative => exact iff_of_false hgreater (by rw [hminus]; omega)
          | positive => exact iff_of_true rfl (by rw [hplus]; omega)
      | zero s' =>
          rw [second.zero_cases, hzero]
          cases s with
          | negative => exact iff_of_true rfl (by rw [hminus]; omega)
          | positive => exact iff_of_false hgreater (by rw [hplus]; omega)
      | finite s' m' e' pos' =>
          obtain ⟨rfl, hpos', _⟩ := second.finite_cases
          have hdigits := first.compare_digits second
          cases s with
          | negative =>
              cases s' with
              | negative =>
                  change some ((compare e e').then (compare m m')).swap = some .lt ↔ _
                  rw [hdigits, Option.some_inj, Ordering.swap_eq_lt, Nat.compare_eq_gt, hminus,
                    hminus]
                  omega
              | positive => exact iff_of_true rfl (by rw [hminus, hplus]; omega)
          | positive =>
              cases s' with
              | negative => exact iff_of_false hgreater (by rw [hminus, hplus]; omega)
              | positive =>
                  change some ((compare e e').then (compare m m')) = some .lt ↔ _
                  rw [hdigits, Option.some_inj, Nat.compare_eq_lt, hplus, hplus]
                  omega

end Compare

section Order

variable {x y : Float}

theorem isNaN_iff : x.isNaN ↔ x.toModel.unpack = .notANumber := by
  change x.toModel.unpack.isNaN = true ↔ _
  cases x.toModel.unpack with
  | notANumber => exact iff_of_true rfl rfl
  | infinity s => exact iff_of_false Bool.false_ne_true UnpackedFloat.noConfusion
  | zero s => exact iff_of_false Bool.false_ne_true UnpackedFloat.noConfusion
  | finite s m e pos => exact iff_of_false Bool.false_ne_true UnpackedFloat.noConfusion

theorem lt_iff_compare : x < y ↔ x.toModel.unpack.compare y.toModel.unpack = some .lt := by
  change decide ((x.toModel.unpack.compare y.toModel.unpack == some .lt) = true) = true ↔ _
  rw [decide_eq_true_iff, beq_iff_eq]

theorem lt_iff_height (defined : ¬ x.isNaN) (defined' : ¬ y.isNaN) :
    x < y ↔ height (isNegative x) (magnitude x) < height (isNegative y) (magnitude y) := by
  rw [isNaN_iff] at defined defined'
  rw [lt_iff_compare, (unpacks x).compare_eq_lt (unpacks y) defined defined']

/-- What is undefined is not less than anything, and nothing is less than it. -/
theorem not_lt_of_isNaN (undefined : x.isNaN ∨ y.isNaN) : ¬ x < y := by
  rw [lt_iff_compare]
  rcases undefined with hx | hy
  · rw [isNaN_iff.mp hx]
    exact (Option.some_ne_none _).symm
  · have hnone : ∀ u : UnpackedFloat, u.compare .notANumber = none := by
      intro u
      cases u <;> rfl
    rw [isNaN_iff.mp hy, hnone]
    exact (Option.some_ne_none _).symm

theorem eq_of_toBits (h : x.toBits.toNat = y.toBits.toNat) : x = y := by
  have hbits : x.toModel.toBits = y.toModel.toBits := UInt64.toNat_inj.mp h
  cases x with
  | ofModel m =>
      cases y with
      | ofModel n =>
          cases m
          cases n
          cases hbits
          rfl

/-- A value is its sign and its magnitude. -/
theorem eq_of_magnitude (sign : isNegative x = isNegative y) (h : magnitude x = magnitude y) :
    x = y := by
  have hx : x.toBits.toNat < 2 ^ 64 := x.toBits.toBitVec.isLt
  have hy : y.toBits.toNat < 2 ^ 64 := y.toBits.toBitVec.isLt
  apply eq_of_toBits
  unfold isNegative at sign
  unfold magnitude at h
  rw [decide_eq_decide] at sign
  omega

theorem rank_eq (x : Float) :
    rank x = if isNegative x then 2 ^ 63 - 1 - magnitude x else 2 ^ 63 + magnitude x := by
  have hbits : x.toBits.toNat < 2 ^ 64 := x.toBits.toBitVec.isLt
  have h63 : twoTo 63 = 2 ^ 63 := rfl
  have h64 : twoTo 64 = 2 ^ 64 := rfl
  unfold rank Double.rank Double.ofFloat isNegative magnitude
  simp only [h63, h64, decide_eq_true_eq]
  split <;> split <;> omega

theorem magnitude_lt (x : Float) : magnitude x < 2 ^ 63 :=
  Nat.mod_lt _ (by decide)

/-- The total order: less as a number, or negative zero before zero, or a number before what is
undefined. -/
def Less (x y : Float) : Prop :=
  x < y ∨ (x = -0.0 ∧ y = 0.0) ∨ (¬ x.isNaN ∧ y.isNaN)

theorem eq_negativeZero_iff : x = -0.0 ↔ isNegative x ∧ magnitude x = 0 := by
  constructor
  · rintro rfl
    decide +kernel
  · rintro ⟨hsign, hzero⟩
    have hnegative : isNegative (-0.0) = true ∧ magnitude (-0.0) = 0 := by decide +kernel
    exact eq_of_magnitude (hsign.trans hnegative.1.symm) (hzero.trans hnegative.2.symm)

theorem eq_zero_iff : x = 0.0 ↔ ¬ isNegative x ∧ magnitude x = 0 := by
  have hpositive : isNegative 0.0 = false ∧ magnitude 0.0 = 0 := by decide +kernel
  constructor
  · rintro rfl
    rw [hpositive.1]
    exact ⟨Bool.false_ne_true, hpositive.2⟩
  · rintro ⟨hsign, hzero⟩
    exact eq_of_magnitude ((Bool.not_eq_true _ ▸ hsign).trans hpositive.1.symm)
      (hzero.trans hpositive.2.symm)

theorem magnitude_of_isNaN (undefined : x.isNaN) :
    isNegative x = false ∧ magnitude x = infiniteMagnitude + 2 ^ 51 := by
  have h := unpacks x
  rw [isNaN_iff.mp undefined] at h
  cases h with
  | undefined positive only => exact ⟨positive, only⟩

theorem magnitude_of_not_isNaN (defined : ¬ x.isNaN) : magnitude x ≤ infiniteMagnitude := by
  rw [isNaN_iff] at defined
  have h := unpacks x
  cases hu : x.toModel.unpack with
  | notANumber => exact absurd hu defined
  | infinity s => exact Nat.le_of_eq (hu ▸ h).infinity_cases.2
  | zero s => exact (hu ▸ h).zero_cases ▸ Nat.zero_le _
  | finite s m e pos => exact Nat.le_of_lt (hu ▸ h).finite_cases.2.2

/-- Ranks are in the total order. -/
theorem rank_lt_iff : rank x < rank y ↔ Less x y := by
  have hbound : infiniteMagnitude + 2 ^ 51 < 2 ^ 63 := by decide
  have hx := rank_eq x
  have hy := rank_eq y
  unfold Less
  by_cases undefined : x.isNaN
  · obtain ⟨hsign, hmost⟩ := magnitude_of_isNaN undefined
    have hnone : ¬ (x < y ∨ x = -0.0 ∧ y = 0.0 ∨ ¬ x.isNaN ∧ y.isNaN) := by
      rintro (hlt | ⟨hzero, _⟩ | ⟨hdefined, _⟩)
      · exact not_lt_of_isNaN (.inl undefined) hlt
      · rw [eq_negativeZero_iff, hsign] at hzero
        exact Bool.false_ne_true hzero.1
      · exact hdefined undefined
    refine iff_of_false ?_ hnone
    have hle : magnitude y ≤ infiniteMagnitude + 2 ^ 51 := by
      by_cases undefined' : y.isNaN
      · exact Nat.le_of_eq (magnitude_of_isNaN undefined').2
      · exact Nat.le_add_right_of_le (magnitude_of_not_isNaN undefined')
    rw [hx, hy, hsign, hmost]
    simp only [Bool.false_eq_true, if_false]
    split <;> omega
  · have hle := magnitude_of_not_isNaN undefined
    by_cases undefined' : y.isNaN
    · obtain ⟨hsign, hmost⟩ := magnitude_of_isNaN undefined'
      refine iff_of_true ?_ (.inr (.inr ⟨undefined, undefined'⟩))
      rw [hx, hy, hsign, hmost]
      simp only [Bool.false_eq_true, if_false]
      split <;> omega
    · have hle' := magnitude_of_not_isNaN undefined'
      rw [hx, hy, lt_iff_height undefined undefined', eq_negativeZero_iff, eq_zero_iff]
      unfold height
      cases isNegative x <;> cases isNegative y <;>
        simp only [undefined', Bool.false_eq_true, if_true, if_false, false_and, and_false, not_true,
          not_false_eq_true, true_and, or_false] <;> omega

/-- Only a value itself has its rank. -/
theorem rank_inj : rank x = rank y ↔ x = y := by
  refine ⟨?_, congrArg rank⟩
  intro h
  have hx := magnitude_lt x
  have hy := magnitude_lt y
  rw [rank_eq, rank_eq] at h
  by_cases hsign : isNegative x = isNegative y
  · refine eq_of_magnitude hsign ?_
    rw [hsign] at h
    split at h <;> omega
  · cases hneg : isNegative x <;> cases hneg' : isNegative y <;>
      simp only [hneg, hneg', not_true, Bool.false_eq_true, if_true, if_false] at h hsign <;> omega

theorem compareTotal_eq_lt : compareTotal x y = .lt ↔ Less x y := by
  rw [compareTotal, Nat.compare_eq_lt, rank_lt_iff]

theorem compareTotal_eq_eq : compareTotal x y = .eq ↔ x = y := by
  rw [compareTotal, Nat.compare_eq_eq, rank_inj]

theorem magnitude_of_isFinite (finite : x.isFinite) :
    ¬ x.isNaN ∧ magnitude x < infiniteMagnitude := by
  have hfinite : x.toModel.unpack.isFinite = true := finite
  rw [isNaN_iff]
  have h := unpacks x
  cases hu : x.toModel.unpack with
  | notANumber =>
      rw [hu] at hfinite
      exact absurd hfinite Bool.false_ne_true
  | infinity s =>
      rw [hu] at hfinite
      exact absurd hfinite Bool.false_ne_true
  | zero s =>
      have hzero : magnitude x = 0 := (hu ▸ h).zero_cases
      exact ⟨UnpackedFloat.noConfusion, hzero ▸ by decide⟩
  | finite s m e pos => exact ⟨UnpackedFloat.noConfusion, (hu ▸ h).finite_cases.2.2⟩

/-- The least value is less than every number. -/
theorem leastValue_less (finite : x.isFinite) : Less leastValue x := by
  obtain ⟨defined, hbound⟩ := magnitude_of_isFinite finite
  have hleast : leastValue.isNaN = false ∧ isNegative leastValue = true ∧
      magnitude leastValue = infiniteMagnitude := by decide +kernel
  have defined' : ¬ leastValue.isNaN := by
    rw [hleast.1]
    exact Bool.false_ne_true
  refine .inl ((lt_iff_height defined' defined).mpr ?_)
  rw [hleast.2.1, hleast.2.2]
  unfold height
  simp only [if_true]
  split <;> omega

end Order

end Engram.Number

namespace Engram

section Sorting

variable {α : Type} {cmp : α → α → Ordering} [Std.TransCmp cmp]

theorem isLE_total (a b : α) : ((cmp a b).isLE || (cmp b a).isLE) = true := by
  have hswap : cmp a b = (cmp b a).swap := Std.OrientedCmp.eq_swap
  rw [hswap]
  cases cmp b a <;> rfl

/-- A list that is sorted by a comparison is in order. -/
theorem pairwise_sort (items : List α) :
    (items.mergeSort fun a b => (cmp a b).isLE).Pairwise fun a b => (cmp a b).isLE :=
  List.pairwise_mergeSort (fun _ _ _ => Std.TransCmp.isLE_trans) isLE_total items

/-- Among equals the order is that of the places they had. -/
theorem pairwise_sort_places (items : List α) :
    (items.zipIdx.mergeSort (List.zipIdxLE fun a b => (cmp a b).isLE)).Pairwise fun p q =>
      cmp p.1 q.1 = .lt ∨ cmp p.1 q.1 = .eq ∧ p.2 < q.2 := by
  have hsorted : (items.zipIdx.mergeSort (List.zipIdxLE fun a b => (cmp a b).isLE)).Pairwise
      fun p q => List.zipIdxLE (fun a b => (cmp a b).isLE) p q = true := by
    refine List.pairwise_mergeSort (List.zipIdxLE_trans ?_) (List.zipIdxLE_total ?_) _
    · exact fun _ _ _ => Std.TransCmp.isLE_trans
    · exact isLE_total
  have hplaces : ((items.zipIdx.mergeSort (List.zipIdxLE fun a b => (cmp a b).isLE)).map
      Prod.snd).Nodup := by
    rw [((List.mergeSort_perm _ _).map Prod.snd).nodup_iff, List.zipIdx_map_snd]
    exact List.nodup_range'
  refine (hsorted.and (List.pairwise_map.mp hplaces)).imp ?_
  rintro p q ⟨hle, hne⟩
  have hswap : cmp q.1 p.1 = (cmp p.1 q.1).swap := Std.OrientedCmp.eq_swap
  unfold List.zipIdxLE at hle
  cases hcmp : cmp p.1 q.1 with
  | lt => exact .inl rfl
  | eq =>
      rw [hcmp] at hswap
      change cmp q.1 p.1 = .eq at hswap
      simp only [hswap, hcmp, Ordering.isLE_eq, if_true, decide_eq_true_eq] at hle
      exact .inr ⟨rfl, Nat.lt_of_le_of_ne hle hne⟩
  | gt => simp [hcmp] at hle

end Sorting

end Engram
