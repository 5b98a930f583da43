import Mathlib

/-!
# Sums with zeros

A double is its sum with a zero, with one exception: minus zero plus zero is zero.  So a number that
is carried through sums with zeros can lose the sign of a zero, and nothing else.  Where it is added
to another number in the end, not even that shows: the sums are equal, or both are zeros.
-/

namespace Tromp

open Float.Model

/-- A double is what its parts make. -/
theorem ofModel_pack_unpack (x : Float) : Float.ofModel (pack x.toModel.unpack) = x := by
  rw [← Float.toBits_inj, ← UInt64.toBitVec_inj]
  exact UnpackedFloat.pack_unpack_of_valid x.toModel.valid

/-- A sum is the sum of the parts. -/
theorem add_eq_of_unpack {x y z : Float}
    (h : UnpackedFloat.add Format.binary64 x.toModel.unpack y.toModel.unpack = z.toModel.unpack) :
    x + y = z := by
  calc x + y
      = .ofModel (pack (UnpackedFloat.add Format.binary64 x.toModel.unpack y.toModel.unpack)) := rfl
    _ = .ofModel (pack z.toModel.unpack) := by rw [h]
    _ = z := ofModel_pack_unpack z

/-- Doubles with the same parts are the same. -/
theorem eq_of_unpack {x y : Float} (h : x.toModel.unpack = y.toModel.unpack) : x = y := by
  rw [← ofModel_pack_unpack x, h, ofModel_pack_unpack]

theorem unpack_zero : (0 : Float).toModel.unpack = .zero .positive := rfl

theorem unpack_negZero : (-0 : Float).toModel.unpack = .zero .negative := rfl

/-- Minus zero changes nothing. -/
theorem add_negZero (x : Float) : x + -0 = x := by
  refine add_eq_of_unpack ?_
  rw [unpack_negZero]
  generalize x.toModel.unpack = u
  cases u with
  | infinity => rfl
  | notANumber => rfl
  | zero s => cases s <;> rfl
  | finite => rfl

/-- Zero changes nothing but minus zero, on either side. -/
theorem unpacked_add_zero {u : UnpackedFloat} (h : u ≠ .zero .negative) :
    UnpackedFloat.add Format.binary64 u (.zero .positive) = u ∧
      UnpackedFloat.add Format.binary64 (.zero .positive) u = u := by
  cases u with
  | infinity => exact ⟨rfl, rfl⟩
  | notANumber => exact ⟨rfl, rfl⟩
  | zero s =>
      cases s with
      | positive => exact ⟨rfl, rfl⟩
      | negative => exact absurd rfl h
  | finite => exact ⟨rfl, rfl⟩

variable {x : Float}

theorem unpack_ne_negZero (h : x ≠ -0) : x.toModel.unpack ≠ .zero .negative := by
  rw [← unpack_negZero]
  exact mt eq_of_unpack h

theorem add_zero_of_ne (h : x ≠ -0) : x + 0 = x := by
  refine add_eq_of_unpack ?_
  rw [unpack_zero]
  exact (unpacked_add_zero (unpack_ne_negZero h)).1

theorem zero_add_of_ne (h : x ≠ -0) : 0 + x = x := by
  refine add_eq_of_unpack ?_
  rw [unpack_zero]
  exact (unpacked_add_zero (unpack_ne_negZero h)).2

/-- What is finite is a number. -/
theorem ne_nan_of_isFinite (h : x.isFinite = true) : x ≠ .nan := by
  rintro rfl
  exact absurd h (by decide)

/-- **Both zeros add up to the same**, apart from the sign of a zero. -/
theorem add_zero_beq_add_negZero (h : (x + -0).isFinite = true) :
    (x + 0).isFinite = true ∧ (x + 0 == x + -0) = true := by
  rw [add_negZero] at h ⊢
  by_cases hx : x = -0
  · subst hx
    exact ⟨rfl, rfl⟩
  · rw [add_zero_of_ne hx]
    exact ⟨h, Float.beq_self_iff.mpr (ne_nan_of_isFinite h)⟩

end Tromp
