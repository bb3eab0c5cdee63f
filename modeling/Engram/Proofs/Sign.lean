import Engram.Proofs.TotalOrder

/-! The sign of a share. A count has no sign set, and neither has a product or a quotient of such
values. So the share of one count in another is never negative zero, and among shares that are
numbers the total order is the order on numbers. -/
namespace Engram.Number

open Float.Model
open UnpackedFloat (Sign)

/-- The sign is not set. -/
inductive Unsigned : UnpackedFloat → Prop where
  | undefined : Unsigned .notANumber
  | infinite : Unsigned (.infinity .positive)
  | zero : Unsigned (.zero .positive)
  | finite {m : Nat} {e : Int} {pos : 0 < m} : Unsigned (.finite .positive m e pos)

theorem unsigned_unpack {x : Float} (h : isNegative x = false) : Unsigned x.toModel.unpack := by
  have hrules := unpacks x
  rw [h] at hrules
  generalize x.toModel.unpack = u at hrules ⊢
  cases hrules with
  | undefined => exact .undefined
  | infinite => exact .infinite
  | zero => exact .zero
  | small => exact .finite
  | large => exact .finite

/-- Without a sign the highest bit is clear. -/
theorem toNat_packComponents_lt (exponent : BitVec Format.binary64.exponentBits)
    (mantissa : BitVec Format.binary64.mantissaBitsWithoutImplicit) :
    (UnpackedFloat.packComponents Format.binary64 .positive exponent mantissa).toNat < 2 ^ 63 := by
  change (0#1 ++ exponent ++ mantissa).toNat < 2 ^ 63
  rw [BitVec.toNat_append, BitVec.toNat_append, BitVec.toNat_zero, Nat.zero_shiftLeft, Nat.zero_or]
  have hexponent : exponent.toNat < 2 ^ 11 := exponent.isLt
  have hmantissa : mantissa.toNat < 2 ^ 52 := mantissa.isLt
  have hshifted : exponent.toNat <<< Format.binary64.mantissaBitsWithoutImplicit < 2 ^ 63 := by
    change exponent.toNat <<< 52 < 2 ^ 63
    rw [Nat.shiftLeft_eq]
    omega
  exact Nat.or_lt_two_pow hshifted (by omega)

theorem Unsigned.isNegative_pack {u : UnpackedFloat} (h : Unsigned u) :
    isNegative ⟨Float.Model.pack u⟩ = false := by
  apply decide_eq_false
  rw [Nat.not_le]
  change (UnpackedFloat.pack Format.binary64 u).toNat < 2 ^ 63
  cases h with
  | undefined => exact toNat_packComponents_lt _ _
  | infinite => exact toNat_packComponents_lt _ _
  | zero => exact toNat_packComponents_lt _ _
  | finite =>
      unfold UnpackedFloat.pack
      dsimp only
      split
      · exact toNat_packComponents_lt _ _
      · split
        · exact toNat_packComponents_lt _ _
        · exact toNat_packComponents_lt _ _

theorem Unsigned.choose {c : Prop} [Decidable c] {a : c → UnpackedFloat} {b : ¬ c → UnpackedFloat}
    (ha : ∀ h, Unsigned (a h)) (hb : ∀ h, Unsigned (b h)) : Unsigned (dite c a b) := by
  by_cases h : c
  · rw [dif_pos h]
    exact ha h
  · rw [dif_neg h]
    exact hb h

theorem unsigned_roundWithAccuracy (spec : Format) (m : Nat) (e : Int)
    (accuracy : UnpackedFloat.Accuracy) :
    Unsigned (UnpackedFloat.roundWithAccuracy spec .positive m e accuracy) := by
  unfold UnpackedFloat.roundWithAccuracy
  exact .choose (fun _ => .zero) fun _ => .finite

section Arithmetic

variable {u v : UnpackedFloat} (spec : Format)

theorem Unsigned.mul (hu : Unsigned u) (hv : Unsigned v) :
    Unsigned (UnpackedFloat.mul spec u v) := by
  cases hu with
  | undefined => cases hv <;> exact .undefined
  | infinite =>
      cases hv with
      | undefined => exact .undefined
      | infinite => exact .infinite
      | zero => exact .undefined
      | finite => exact .infinite
  | zero =>
      cases hv with
      | undefined => exact .undefined
      | infinite => exact .undefined
      | zero => exact .zero
      | finite => exact .zero
  | finite =>
      cases hv with
      | undefined => exact .undefined
      | infinite => exact .infinite
      | zero => exact .zero
      | finite => exact unsigned_roundWithAccuracy _ _ _ _

theorem Unsigned.div (hu : Unsigned u) (hv : Unsigned v) :
    Unsigned (UnpackedFloat.div spec u v) := by
  cases hu with
  | undefined => cases hv <;> exact .undefined
  | infinite =>
      cases hv with
      | undefined => exact .undefined
      | infinite => exact .undefined
      | zero => exact .infinite
      | finite => exact .infinite
  | zero =>
      cases hv with
      | undefined => exact .undefined
      | infinite => exact .zero
      | zero => exact .undefined
      | finite => exact .zero
  | finite =>
      cases hv with
      | undefined => exact .undefined
      | infinite => exact .zero
      | zero => exact .infinite
      | finite => exact unsigned_roundWithAccuracy _ _ _ _

theorem unsigned_ofNat (n : Nat) : Unsigned (UnpackedFloat.ofNat spec n) := by
  cases n with
  | zero => exact .zero
  | succ n => exact unsigned_roundWithAccuracy _ _ _ _

theorem unsigned_ofScientific (m : Nat) (e : Int) :
    Unsigned (UnpackedFloat.ofScientific spec m e) := by
  unfold UnpackedFloat.ofScientific
  refine .choose (fun _ => .zero) fun _ => ?_
  refine iteInduction (fun _ => .infinite) fun _ => iteInduction (fun _ => .zero) fun _ => ?_
  refine iteInduction (fun _ => ?_) fun _ => ?_
  · exact .mul spec .finite .finite
  · exact .div spec .finite .finite

end Arithmetic

theorem isNegative_mul {x y : Float} (hx : isNegative x = false) (hy : isNegative y = false) :
    isNegative (x * y) = false :=
  ((unsigned_unpack hx).mul _ (unsigned_unpack hy)).isNegative_pack

theorem isNegative_div {x y : Float} (hx : isNegative x = false) (hy : isNegative y = false) :
    isNegative (x / y) = false :=
  ((unsigned_unpack hx).div _ (unsigned_unpack hy)).isNegative_pack

/-- A count has no sign. A small one is taken as it is, times one; a large one is rounded. -/
theorem isNegative_toFloat (n : Nat) : isNegative n.toFloat = false := by
  change isNegative (Float.ofScientific n false 0) = false
  unfold Float.ofScientific
  split
  · have hone : isNegative (Float.ofBits 4607182418800017408) = false := by decide +kernel
    exact isNegative_mul (unsigned_ofNat _ _).isNegative_pack hone
  · exact (unsigned_ofScientific _ n _).isNegative_pack

/-- Among values without a sign what comes before another in the total order is less, unless the
other is undefined. -/
theorem lt_of_rank_lt {x y : Float} (hx : isNegative x = false) (defined : ¬ y.isNaN)
    (h : rank x < rank y) : x < y := by
  rcases rank_lt_iff.mp h with hlt | ⟨rfl, _⟩ | ⟨_, undefined⟩
  · exact hlt
  · rw [eq_negativeZero_iff.mp rfl |>.1] at hx
    cases hx
  · exact absurd undefined defined

end Engram.Number
