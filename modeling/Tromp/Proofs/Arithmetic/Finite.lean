import Tromp.Arithmetic.Binary
import Tromp.Proofs.Arithmetic.Zeros

/-!
# Products and sums that are numbers

A product of finite doubles may be infinite, but it is a number: only zero times infinity is none.
A sum is none only where two infinities are added.  Rounding turns what is finite into something
finite or into an infinity, and never into what is no number.

1.  Only what is no number is packed into the bits of what is none (`ofModel_pack_ne_nan`).
2.  Rounding gives a zero or something finite (`isFinite_roundWithAccuracy`).
-/

namespace Tromp

open Float.Model

open UnpackedFloat hiding normalize

/-! ### Packing -/

/-- The bits of what is no number have all bits of the exponent set. -/
theorem ne_packedNaN_of_unpackExponent {spec : Format} {b : BitVec spec.numBits}
    (h : unpackExponent b ≠ -1#_) : b ≠ packedNaN spec := by
  rintro rfl
  exact h (unpackExponent_packComponents ..)

/-- Infinities have them set as well, but not those of the mantissa. -/
theorem packedInfinity_ne_packedNaN (s : Sign) :
    packedInfinity Format.binary64 s ≠ packedNaN Format.binary64 := by
  cases s <;> decide

theorem pack_ne_packedNaN {u : UnpackedFloat} (h : u ≠ .notANumber) :
    UnpackedFloat.pack Format.binary64 u ≠ packedNaN Format.binary64 := by
  cases u with
  | infinity s => exact packedInfinity_ne_packedNaN s
  | notANumber => exact absurd rfl h
  | zero s => cases s <;> decide
  | finite s m e hm =>
      simp only [UnpackedFloat.pack]
      split
      · exact packedInfinity_ne_packedNaN s
      next hexponent =>
        split
        · refine ne_packedNaN_of_unpackExponent ?_
          rw [unpackExponent_packComponents]
          intro hones
          have hvalue := congrArg BitVec.toNat hones
          rw [BitVec.toNat_ofNat, BitVec.neg_one_eq_allOnes, BitVec.toNat_allOnes,
            Nat.mod_eq_of_lt (by omega)] at hvalue
          omega
        · refine ne_packedNaN_of_unpackExponent ?_
          rw [unpackExponent_packComponents]
          decide

/-- What is a number is packed into a number. -/
theorem ofModel_pack_ne_nan {u : UnpackedFloat} (h : u ≠ .notANumber) :
    Float.ofModel (pack u) ≠ .nan := by
  intro hnan
  have hisNaN : (Float.ofModel (pack u)).isNaN = true := by
    rw [Float.isNaN_eq_decide_eq_nan]
    exact decide_eq_true hnan
  exact pack_ne_packedNaN h ((isNaN_unpack_iff_of_valid (pack u).valid).mp hisNaN)

/-! ### Rounding -/

theorem isFinite_roundWithAccuracy (spec : Format) (s : Sign) (m : Nat) (e : Int) (a : Accuracy) :
    (roundWithAccuracy spec s m e a).isFinite = true := by
  simp only [roundWithAccuracy]
  split <;> rfl

theorem isFinite_normalize (spec : Format) (m e : Int) (s : Sign) :
    (UnpackedFloat.normalize spec m e s).isFinite = true := by
  unfold UnpackedFloat.normalize
  split
  · exact isFinite_roundWithAccuracy ..
  · rfl
  · exact isFinite_roundWithAccuracy ..

theorem ne_notANumber_of_isFinite {u : UnpackedFloat} (h : u.isFinite = true) :
    u ≠ .notANumber := by
  rintro rfl
  cases h

/-! ### Products and sums -/

theorem mul_ne_notANumber {u v : UnpackedFloat} (hu : u.isFinite = true) (hv : v.isFinite = true) :
    UnpackedFloat.mul Format.binary64 u v ≠ .notANumber := by
  refine ne_notANumber_of_isFinite ?_
  cases u with
  | infinity => cases hu
  | notANumber => cases hu
  | zero =>
      cases v with
      | infinity => cases hv
      | notANumber => cases hv
      | zero => rfl
      | finite => rfl
  | finite =>
      cases v with
      | infinity => cases hv
      | notANumber => cases hv
      | zero => rfl
      | finite => exact isFinite_roundWithAccuracy ..

theorem add_ne_notANumber {u v : UnpackedFloat} (hu : u ≠ .notANumber) (hv : v.isFinite = true) :
    UnpackedFloat.add Format.binary64 u v ≠ .notANumber := by
  cases v with
  | infinity => cases hv
  | notANumber => cases hv
  | zero s' =>
      cases u with
      | infinity => exact nofun
      | notANumber => exact absurd rfl hu
      | zero s => cases s <;> cases s' <;> exact nofun
      | finite => exact nofun
  | finite =>
      cases u with
      | infinity => exact nofun
      | notANumber => exact absurd rfl hu
      | zero => exact nofun
      | finite => exact ne_notANumber_of_isFinite (isFinite_normalize ..)

theorem unpack_ne_notANumber {x : Float} (h : x ≠ .nan) : x.toModel.unpack ≠ .notANumber := by
  intro hunpack
  have hisNaN : x.isNaN = true := congrArg UnpackedFloat.isNaN hunpack
  rw [Float.isNaN_eq_decide_eq_nan] at hisNaN
  exact h (of_decide_eq_true hisNaN)

/-- **A product of finite doubles is a number.** -/
theorem mul_ne_nan {x y : Float} (hx : x.isFinite = true) (hy : y.isFinite = true) :
    x * y ≠ .nan := ofModel_pack_ne_nan (mul_ne_notANumber hx hy)

/-- **The sum of a number and a finite double is a number.** -/
theorem add_ne_nan {x y : Float} (hx : x ≠ .nan) (hy : y.isFinite = true) : x + y ≠ .nan :=
  ofModel_pack_ne_nan (add_ne_notANumber (unpack_ne_notANumber hx) hy)

/-! ### Whole numbers -/

/-- The double one. -/
theorem unpack_one : (Float.ofBits 0x3FF0000000000000).toModel.unpack =
    .finite .positive (2 ^ 52) (-52) (by decide) := rfl

/-- A small whole number is converted, and multiplied by one. -/
theorem nearest_natCast {n : Nat} (h : n < 2 ^ 53) :
    Binary.nearest n = n.toUInt64.toFloat * Float.ofBits 0x3FF0000000000000 := by
  unfold Binary.nearest
  rw [if_neg (by omega), Int.natAbs_natCast]
  exact dif_pos ⟨h, by decide⟩

end Tromp
