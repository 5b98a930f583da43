import Mathlib.Algebra.Order.Ring.Rat
import Mathlib.Algebra.Field.Rat
import Mathlib.Tactic.NormNum
import Tromp.Arithmetic.Scalar

/-!
# Exact arithmetic

Over the rationals the words of `Scalar` mean what they mean for numbers: the smaller of two scalars
is their minimum, and the scalar of a natural number is that number.  What is positive is not zero,
so a division by it is never refused.
-/

namespace Tromp.Scalar

@[simp] theorem ofNat_rat (n : Nat) : (ofNat n : Rat) = n := rfl

@[simp] theorem zero_rat : (zero : Rat) = 0 := rfl

@[simp] theorem decimal_zero_rat : (0.0 : Rat) = 0 := by norm_num

@[simp] theorem least_rat (a b : Rat) : least a b = min a b := by
  unfold least
  split
  next h => exact (min_eq_right (le_of_lt h)).symm
  next h => exact (min_eq_left (not_lt.mp h)).symm

@[simp] theorem greatest_rat (a b : Rat) : greatest a b = max a b := by
  unfold greatest
  split
  next h => exact (max_eq_right (le_of_lt h)).symm
  next h => exact (max_eq_left (not_lt.mp h)).symm

theorem isZero_rat_of_pos {x : Rat} (h : 0 < x) : isZero x = false := by
  have hnot : ¬ x ≤ 0 := not_le.mpr h
  simp [isZero, hnot]

end Tromp.Scalar
