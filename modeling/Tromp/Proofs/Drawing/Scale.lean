import Mathlib.Tactic.FieldSimp
import Mathlib.Tactic.Positivity
import Tromp.Drawing.Layout
import Tromp.Proofs.Settings.Accepted
import Tromp.Proofs.Term.Address

/-!
# The size of a row

With accepted settings the factor that fits a diagram to its canvas is positive, for every term: the
canvas leaves something free in both directions, and the unfitted diagram has a width and a height.
So the rows of a drawing have a positive size.  With the factor the diagram does fit, its padding
included (`LayoutSettings.Bounds.fitScale_mul_le`).
-/

namespace Tromp

theorem available_pos {side : Rat} (hside : 0 < side) (margin : Rat) :
    0 < available side margin := by
  unfold available
  split
  next => exact hside
  next h => exact not_le.mp h

/-- No more is left for the diagram than there is. -/
theorem available_le {side margin : Rat} (hmargin : 0 ≤ margin) : available side margin ≤ side := by
  unfold available
  split
  next => exact le_rfl
  next => exact sub_le_self side hmargin

theorem safetyFactor_pos (size : Nat) : (0 : Rat) < safetyFactor size := by
  unfold safetyFactor
  split
  next => norm_num
  next =>
      split
      next => norm_num
      next => norm_num

theorem safetyFactor_le_one (size : Nat) : (safetyFactor size : Rat) ≤ 1 := by
  unfold safetyFactor
  split
  next => norm_num
  next =>
      split
      next => norm_num
      next => norm_num

namespace LayoutSettings.Bounds

variable {s : LayoutSettings Rat}

theorem unfittedWidth_pos (h : s.Bounds) {width : Rat} (hw : 0 < width) :
    0 < s.unfittedWidth width := by
  have hu := h.unitSize_pos
  have hp := h.padding_nonneg
  simp only [unfittedWidth, Scalar.ofNat_rat]
  positivity

theorem unfittedHeight_pos (h : s.Bounds) {height : Rat} (hh : 0 ≤ height) :
    0 < s.unfittedHeight height := by
  have hu := h.unitSize_pos
  have hp := h.padding_nonneg
  simp only [unfittedHeight, Scalar.ofNat_rat]
  positivity

theorem fitScale_pos (h : s.Bounds) {width height : Rat} (hw : 0 < width) (hh : 0 ≤ height)
    (size : Nat) : 0 < s.fitScale width height size := by
  have hacross : 0 < available s.width s.fitMargin / s.unfittedWidth width :=
    div_pos (available_pos h.width_pos _) (h.unfittedWidth_pos hw)
  have hdown : 0 < available s.height s.fitMargin / s.unfittedHeight height :=
    div_pos (available_pos h.height_pos _) (h.unfittedHeight_pos hh)
  simp only [fitScale, Scalar.least_rat]
  exact mul_pos (lt_min hacross hdown) (safetyFactor_pos size)

/-- **A fitted diagram fits the canvas**: its width and its height, each with the padding on both
sides, are at most those of the canvas. -/
theorem fitScale_mul_le (h : s.Bounds) {width height : Rat} (hw : 0 < width) (hh : 0 ≤ height)
    (size : Nat) :
    s.fitScale width height size * s.unfittedWidth width ≤ s.width ∧
      s.fitScale width height size * s.unfittedHeight height ≤ s.height := by
  have hscale : ∀ {side unfitted : Rat}, 0 < side → 0 < unfitted →
      s.fitScale width height size ≤
        available side s.fitMargin / unfitted * safetyFactor size →
      s.fitScale width height size * unfitted ≤ side := by
    intro side unfitted hside hunfitted hle
    have hleft := available_pos hside s.fitMargin
    calc s.fitScale width height size * unfitted
        ≤ available side s.fitMargin / unfitted * safetyFactor size * unfitted :=
          mul_le_mul_of_nonneg_right hle hunfitted.le
      _ = available side s.fitMargin * safetyFactor size := by field_simp
      _ ≤ available side s.fitMargin := mul_le_of_le_one_right hleft.le (safetyFactor_le_one size)
      _ ≤ side := available_le h.fitMargin_nonneg
  have hsafety := (safetyFactor_pos size).le
  constructor
  · refine hscale h.width_pos (h.unfittedWidth_pos hw) (mul_le_mul_of_nonneg_right ?_ hsafety)
    simp
  · refine hscale h.height_pos (h.unfittedHeight_pos hh) (mul_le_mul_of_nonneg_right ?_ hsafety)
    simp

/-- With accepted settings every term is fitted: nothing is divided by zero. -/
theorem fitScale?_eq_ok (h : s.Bounds) (t : Term) :
    s.fitScale? (Scalar.ofNat t.width) (Scalar.ofNat t.height) t.size = .ok (s.scaleOf t) := by
  have hwidth : (0 : Rat) < Scalar.ofNat t.width := Nat.cast_pos.mpr t.width_pos
  have hheight : (0 : Rat) ≤ Scalar.ofNat t.height := Nat.cast_nonneg t.height
  rw [fitScale?,
    Scalar.quotient?_eq_ok (Scalar.isZero_rat_of_pos (h.unfittedWidth_pos hwidth)),
    Scalar.quotient?_eq_ok (Scalar.isZero_rat_of_pos (h.unfittedHeight_pos hheight))]
  rfl

/-- The factor of every term is positive. -/
theorem scaleOf_pos (h : s.Bounds) (t : Term) : 0 < s.scaleOf t := by
  have hwidth : (0 : Rat) < Scalar.ofNat t.width := Nat.cast_pos.mpr t.width_pos
  have hheight : (0 : Rat) ≤ Scalar.ofNat t.height := Nat.cast_nonneg t.height
  exact h.fitScale_pos hwidth hheight t.size

/-- A row has a positive size in the drawing of every term. -/
theorem unitSize_mul_scaleOf_pos (h : s.Bounds) (t : Term) : 0 < s.unitSize * s.scaleOf t :=
  mul_pos h.unitSize_pos (h.scaleOf_pos t)

end LayoutSettings.Bounds

end Tromp
