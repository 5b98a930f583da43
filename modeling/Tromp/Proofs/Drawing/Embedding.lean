import Tromp.Proofs.Drawing.Scale
import Tromp.Proofs.Drawing.Success
import Tromp.Term.Numeral

/-!
# Fitting a term and its parts

The width, the height and the size of a term are at least those of each of its parts, and the factor
that fits a diagram to its canvas falls with each of the three.  So a term that is put into a larger
one is never drawn with larger units than on its own (`fitScale_le_of_part`).
-/

namespace Tromp

/-! ### Measures of parts -/

namespace Term

variable {t u : Term} {π : Address}

theorem width_le_of_at? (h : t.at? π = some u) : u.width ≤ t.width :=
  Nat.le_trans (Nat.le_add_left _ _) (column_add_width_le h)

theorem height_le_of_at? (h : t.at? π = some u) : u.height ≤ t.height := by
  fun_induction at? t π with
  | case1 t =>
      obtain rfl := Option.some.inj h
      exact Nat.le_refl _
  | case2 name numeral body π ih => exact Nat.le_succ_of_le (ih h)
  | case3 f a π ih => exact Nat.le_succ_of_le (Nat.le_trans (ih h) (Nat.le_max_left _ _))
  | case4 f a π ih => exact Nat.le_succ_of_le (Nat.le_trans (ih h) (Nat.le_max_right _ _))
  | case5 => cases h

theorem size_le_of_at? (h : t.at? π = some u) : u.size ≤ t.size := by
  fun_induction at? t π with
  | case1 t =>
      obtain rfl := Option.some.inj h
      exact Nat.le_refl _
  | case2 name numeral body π ih => exact Nat.le_trans (ih h) (Nat.le_add_left _ _)
  | case3 f a π ih => exact Nat.le_trans (ih h) (Nat.le_add_right _ _)
  | case4 f a π ih => exact Nat.le_trans (ih h) (Nat.le_add_left _ _)
  | case5 => cases h

end Term

/-! ### The factor falls -/

theorem safetyFactor_anti {size size' : Nat} (h : size ≤ size') :
    (safetyFactor size' : Rat) ≤ safetyFactor size := by
  unfold safetyFactor
  -- The cases in which the smaller size has the smaller factor contradict the hypothesis.
  split_ifs <;> norm_num <;> omega

namespace LayoutSettings.Bounds

variable {s : LayoutSettings Rat} {width width' height height' : Rat} {size size' : Nat}

theorem unfittedWidth_mono (h : s.Bounds) (hwidth : width ≤ width') :
    s.unfittedWidth width ≤ s.unfittedWidth width' := by
  have hu := h.unitSize_pos.le
  simp only [unfittedWidth, Scalar.ofNat_rat]
  gcongr

theorem unfittedHeight_mono (h : s.Bounds) (hheight : height ≤ height') :
    s.unfittedHeight height ≤ s.unfittedHeight height' := by
  have hu := h.unitSize_pos.le
  simp only [unfittedHeight, Scalar.ofNat_rat]
  gcongr

/-- **The factor falls** with the width, the height and the size of a term. -/
theorem fitScale_anti (h : s.Bounds) (hpos : 0 < width) (hnonneg : 0 ≤ height)
    (hwidth : width ≤ width') (hheight : height ≤ height') (hsize : size ≤ size') :
    s.fitScale width' height' size' ≤ s.fitScale width height size := by
  have hacross : available s.width s.fitMargin / s.unfittedWidth width' ≤
      available s.width s.fitMargin / s.unfittedWidth width :=
    div_le_div_of_nonneg_left (available_pos h.width_pos _).le (h.unfittedWidth_pos hpos)
      (h.unfittedWidth_mono hwidth)
  have hdown : available s.height s.fitMargin / s.unfittedHeight height' ≤
      available s.height s.fitMargin / s.unfittedHeight height :=
    div_le_div_of_nonneg_left (available_pos h.height_pos _).le (h.unfittedHeight_pos hnonneg)
      (h.unfittedHeight_mono hheight)
  have hratios : 0 ≤ min (available s.width s.fitMargin / s.unfittedWidth width)
      (available s.height s.fitMargin / s.unfittedHeight height) :=
    le_min (div_pos (available_pos h.width_pos _) (h.unfittedWidth_pos hpos)).le
      (div_pos (available_pos h.height_pos _) (h.unfittedHeight_pos hnonneg)).le
  simp only [fitScale, Scalar.least_rat]
  exact mul_le_mul (min_le_min hacross hdown) (safetyFactor_anti hsize) (safetyFactor_pos size').le
    hratios

end LayoutSettings.Bounds

/-- **Embedding a term never makes its units larger.**  With accepted settings a term and each of
its parts are fitted, no divisor being zero, and the factor of the term is positive and at most that
of the part. -/
theorem fitScale_le_of_part {s : LayoutSettings Rat} (hs : s.IsAccepted) {t u : Term} {π : Address}
    (hu : t.at? π = some u) :
    ∃ whole part,
      s.fitScale? (Scalar.ofNat t.width) (Scalar.ofNat t.height) t.size = .ok whole ∧
      s.fitScale? (Scalar.ofNat u.width) (Scalar.ofNat u.height) u.size = .ok part ∧
      0 < whole ∧ whole ≤ part := by
  have hbounds := hs.bounds
  have hwidth : (u.width : Rat) ≤ t.width := Nat.cast_le.mpr (Term.width_le_of_at? hu)
  have hheight : (u.height : Rat) ≤ t.height := Nat.cast_le.mpr (Term.height_le_of_at? hu)
  refine ⟨s.scaleOf t, s.scaleOf u, hbounds.fitScale?_eq_ok t, hbounds.fitScale?_eq_ok u,
    hbounds.scaleOf_pos t, ?_⟩
  exact hbounds.fitScale_anti (Nat.cast_pos.mpr u.width_pos) (Nat.cast_nonneg u.height) hwidth
    hheight (Term.size_le_of_at? hu)

/-- The numeral of ninety, which is large, in an application. -/
theorem fitScale_le_of_part_numeral :
    let t : Term := .app (.var (some "x") (some 0) true) (Term.church 90)
    ∃ s : LayoutSettings Rat, s.IsAccepted ∧ t.at? [.arg] = some (Term.church 90) ∧
      ∃ whole part,
        s.fitScale? (Scalar.ofNat t.width) (Scalar.ofNat t.height) t.size = .ok whole ∧
        s.fitScale? (Scalar.ofNat (Term.church 90).width) (Scalar.ofNat (Term.church 90).height)
          (Term.church 90).size = .ok part ∧
        0 < whole ∧ whole ≤ part := by
  intro t
  obtain ⟨s, hs, -⟩ := LayoutSettings.exists_build
  have hpart : t.at? [.arg] = some (Term.church 90) := rfl
  exact ⟨s, .of_build hs, hpart, fitScale_le_of_part (.of_build hs) hpart⟩

end Tromp
