import Engram.Proofs.TotalOrder
import Mathlib

/-! Doubles with all their bits and the floats they are read as. A number is read without loss. The
total order puts undefined values whose sign is set before all numbers and the others after them,
and among numbers it is the order of floats. -/
namespace Engram.Number.Double

open Float.Model

variable {c d : Double}

/-- The sign bit is set. -/
def isNegative (d : Double) : Bool := 2 ^ 63 ≤ d.bits.toNat

/-- All bits but the sign, as one number. -/
def magnitude (d : Double) : Nat := d.bits.toNat % 2 ^ 63

@[simp] theorem toFloat_ofFloat (x : Float) : (ofFloat x).toFloat = x :=
  Float.ofBits_toBits x

/-- Reading keeps the bits, unless they are those of an undefined value. -/
theorem toBits_toFloat (d : Double) :
    d.toFloat.toBits.toBitVec =
      if @UnpackedFloat.isNaNBits Format.binary64 d.bits.toBitVec then
        UnpackedFloat.packedNaN Format.binary64
      else d.bits.toBitVec :=
  UnpackedFloat.pack_unpack _

theorem isNaN_iff_isNaNBits :
    d.isNaN ↔ @UnpackedFloat.isNaNBits Format.binary64 d.bits.toBitVec := by
  have hread := toBits_toFloat d
  have hvalid : d.isNaN ↔ d.toFloat.toBits.toBitVec = UnpackedFloat.packedNaN Format.binary64 :=
    UnpackedFloat.isNaN_unpack_iff_of_valid d.toFloat.toModel.valid
  rw [hvalid, hread]
  by_cases undefined : @UnpackedFloat.isNaNBits Format.binary64 d.bits.toBitVec
  · rw [if_pos undefined]
    exact iff_of_true rfl undefined
  · rw [if_neg undefined]
    refine iff_of_false ?_ undefined
    intro heq
    rw [heq] at undefined
    exact undefined UnpackedFloat.isNaNBits_packedNaN

/-- An undefined value is one beyond what is infinite. -/
theorem isNaN_iff_magnitude : d.isNaN ↔ infiniteMagnitude < d.magnitude := by
  have hbits : d.bits.toNat < 2 ^ 64 := d.bits.toBitVec.isLt
  let b : BitVec Format.binary64.numBits := d.bits.toBitVec
  have hb : b.toNat = d.bits.toNat := rfl
  have hexponent := toNat_unpackExponent b
  have hmantissa := toNat_unpackMantissa b
  rw [hb] at hexponent hmantissa
  have hfull : UnpackedFloat.unpackExponent b = -1#_ ↔ d.bits.toNat / 2 ^ 52 % 2 ^ 11 = 2047 := by
    rw [← hexponent, ← BitVec.toNat_inj]
    rfl
  have hnone : UnpackedFloat.unpackMantissa b = 0#_ ↔ d.bits.toNat % 2 ^ 52 = 0 := by
    rw [← hmantissa, ← BitVec.toNat_inj]
    rfl
  rw [isNaN_iff_isNaNBits, UnpackedFloat.isNaNBits, decide_eq_true_iff, hfull, Ne, hnone, magnitude,
    infiniteMagnitude]
  omega

/-- A number is read without loss. -/
theorem ofFloat_toFloat (defined : ¬ d.isNaN) : ofFloat d.toFloat = d := by
  have hread := toBits_toFloat d
  rw [if_neg (mt isNaN_iff_isNaNBits.mpr defined)] at hread
  exact congrArg Double.mk (UInt64.toBitVec_inj.mp hread)

/-- Undefined values are all read as the same float. -/
theorem toFloat_of_isNaN {x : Float} (undefined : d.isNaN) (undefined' : x.isNaN) :
    d.toFloat = x := by
  have hd := toBits_toFloat d
  have hx := toBits_toFloat (ofFloat x)
  have hwas : (ofFloat x).isNaN := by rwa [isNaN, toFloat_ofFloat]
  rw [if_pos (isNaN_iff_isNaNBits.mp undefined)] at hd
  rw [if_pos (isNaN_iff_isNaNBits.mp hwas), toFloat_ofFloat, ← hd] at hx
  rw [← Float.ofBits_toBits x, UInt64.toBitVec_inj.mp hx, Float.ofBits_toBits]

theorem isNaN_quiet (undefined : d.isNaN) : d.quiet.isNaN := by
  rw [isNaN_iff_magnitude] at undefined ⊢
  refine undefined.trans_le ?_
  unfold magnitude quiet
  rw [UInt64.toNat_or, Nat.or_mod_two_pow]
  exact Nat.left_le_or

theorem isNaN_indefinite : indefinite.isNaN := by
  decide +kernel

theorem rank_eq (d : Double) :
    d.rank = if d.isNegative then 2 ^ 63 - 1 - d.magnitude else 2 ^ 63 + d.magnitude := by
  have hbits : d.bits.toNat < 2 ^ 64 := d.bits.toBitVec.isLt
  have h63 : twoTo 63 = 2 ^ 63 := rfl
  have h64 : twoTo 64 = 2 ^ 64 := rfl
  unfold rank isNegative magnitude
  simp only [h63, h64, decide_eq_true_eq]
  split <;> split <;> omega

/-- Only a value itself has its rank. -/
theorem rank_inj : c.rank = d.rank ↔ c = d := by
  refine ⟨?_, congrArg rank⟩
  intro h
  have hc : c.bits.toNat < 2 ^ 64 := c.bits.toBitVec.isLt
  have hd : d.bits.toNat < 2 ^ 64 := d.bits.toBitVec.isLt
  have h63 : twoTo 63 = 2 ^ 63 := rfl
  have h64 : twoTo 64 = 2 ^ 64 := rfl
  have hbits : c.bits.toNat = d.bits.toNat := by
    unfold rank at h
    simp only [h63, h64] at h
    split at h <;> split at h <;> omega
  exact congrArg Double.mk (UInt64.toNat_inj.mp hbits)

theorem compareTotal_eq_eq : c.compareTotal d = .eq ↔ c = d := by
  rw [compareTotal, Nat.compare_eq_eq, rank_inj]

/-- Numbers are in the order of floats. -/
theorem rank_lt_iff (defined : ¬ c.isNaN) (defined' : ¬ d.isNaN) :
    c.rank < d.rank ↔ Less c.toFloat d.toFloat := by
  rw [← Number.rank_lt_iff, Number.rank, Number.rank, ofFloat_toFloat defined,
    ofFloat_toFloat defined']

/-- Where a value stands: before the numbers, among them, or after them. -/
def standing (d : Double) : Nat :=
  if d.isNaN then if d.isNegative then 0 else 2 else 1

/-- The total order. An undefined value whose sign is set comes before every number, and any other
after them. Among undefined values of one sign the magnitude decides, and the sign which way. -/
inductive Before (c d : Double) : Prop where
  | standing (apart : c.standing < d.standing)
  | numbers (defined : ¬ c.isNaN) (defined' : ¬ d.isNaN) (less : Less c.toFloat d.toFloat)
  | negative (first : c.standing = 0) (first' : d.standing = 0) (larger : d.magnitude < c.magnitude)
  | positive (last : c.standing = 2) (last' : d.standing = 2) (smaller : c.magnitude < d.magnitude)

theorem magnitude_lt (d : Double) : d.magnitude < 2 ^ 63 := Nat.mod_lt _ (by decide)

/-- At each standing, the rank by the magnitude. -/
theorem standing_cases (d : Double) :
    d.standing = 0 ∧ d.rank = 2 ^ 63 - 1 - d.magnitude ∨
      d.standing = 1 ∧ ¬ d.isNaN ∨ d.standing = 2 ∧ d.rank = 2 ^ 63 + d.magnitude := by
  rw [rank_eq]
  unfold standing
  by_cases undefined : d.isNaN
  · rw [if_pos undefined]
    by_cases negative : d.isNegative
    · exact .inl ⟨if_pos negative, if_pos negative⟩
    · exact .inr (.inr ⟨if_neg negative, if_neg negative⟩)
  · exact .inr (.inl ⟨if_neg undefined, undefined⟩)

theorem rank_of_standing_eq_zero (first : d.standing = 0) : d.rank = 2 ^ 63 - 1 - d.magnitude := by
  rcases d.standing_cases with ⟨_, hrank⟩ | ⟨among, _⟩ | ⟨last, _⟩
  · exact hrank
  · omega
  · omega

theorem rank_of_standing_eq_two (last : d.standing = 2) : d.rank = 2 ^ 63 + d.magnitude := by
  rcases d.standing_cases with ⟨first, _⟩ | ⟨among, _⟩ | ⟨_, hrank⟩
  · omega
  · omega
  · exact hrank

theorem rank_lt_of_standing (h : c.standing < d.standing) : c.rank < d.rank := by
  have hc := c.magnitude_lt
  have hd := d.magnitude_lt
  rw [rank_eq, rank_eq]
  simp only [standing, isNaN_iff_magnitude] at h
  split_ifs at h ⊢ <;> omega

/-- Comparing is by the total order. -/
theorem compareTotal_eq_lt : c.compareTotal d = .lt ↔ c.Before d := by
  rw [compareTotal, Nat.compare_eq_lt]
  have hc := c.magnitude_lt
  have hd := d.magnitude_lt
  constructor
  · intro h
    rcases Nat.lt_trichotomy c.standing d.standing with apart | same | apart
    · exact .standing apart
    · rcases c.standing_cases with ⟨first, hrank⟩ | ⟨among, defined⟩ | ⟨last, hrank⟩
      · have first' : d.standing = 0 := same ▸ first
        rw [hrank, rank_of_standing_eq_zero first'] at h
        exact .negative first first' (by omega)
      · have defined' : ¬ d.isNaN := by
          rcases d.standing_cases with ⟨first', _⟩ | ⟨_, defined'⟩ | ⟨last', _⟩
          · omega
          · exact defined'
          · omega
        exact .numbers defined defined' ((rank_lt_iff defined defined').mp h)
      · have last' : d.standing = 2 := same ▸ last
        rw [hrank, rank_of_standing_eq_two last'] at h
        exact .positive last last' (by omega)
    · have hback := rank_lt_of_standing apart
      omega
  · rintro (apart | ⟨defined, defined', less⟩ | ⟨first, first', larger⟩ | ⟨last, last', smaller⟩)
    · exact rank_lt_of_standing apart
    · exact (rank_lt_iff defined defined').mpr less
    · rw [rank_of_standing_eq_zero first, rank_of_standing_eq_zero first']
      omega
    · rw [rank_of_standing_eq_two last, rank_of_standing_eq_two last']
      omega

end Engram.Number.Double
