import Mathlib.Order.Bounds.Basic
import Mathlib.Order.Lattice
import Tromp.Drawing.Primitive
import Tromp.Proofs.Arithmetic.Exact

/-!
# The order of boxes

In exact arithmetic intervals are ordered by lying within each other.  The empty interval lies
within all others, and the union of two intervals is their least upper bound; boxes are ordered in
both directions at once.  So the bounds of a drawing are the least box around its primitives
(`Fragment.isLUB_bounds`), in whatever order these were drawn, and boxes that collide go on
colliding when they grow.
-/

namespace Tromp

namespace Interval

/-- An interval lies within another. -/
inductive Within : Interval Rat → Interval Rat → Prop where
  | empty (j : Interval Rat) : Within .empty j
  | between {a b c d : Rat} (low : c ≤ a) (high : b ≤ d) : Within (.between a b) (.between c d)

theorem between_within_between {a b c d : Rat} :
    Within (.between a b) (.between c d) ↔ c ≤ a ∧ b ≤ d := by
  constructor
  · rintro ⟨⟩
    exact ⟨‹_›, ‹_›⟩
  · rintro ⟨low, high⟩
    exact .between low high

theorem Within.refl (i : Interval Rat) : Within i i := by
  cases i with
  | empty => exact .empty _
  | between a b => exact .between le_rfl le_rfl

theorem Within.trans {i j k : Interval Rat} (hij : Within i j) (hjk : Within j k) :
    Within i k := by
  cases hij with
  | empty => exact .empty k
  | between low high =>
      cases hjk with
      | between low' high' => exact .between (low'.trans low) (high.trans high')

theorem Within.antisymm {i j : Interval Rat} (hij : Within i j) (hji : Within j i) : i = j := by
  cases hij with
  | empty =>
      cases hji
      rfl
  | between low high =>
      obtain ⟨low', high'⟩ := between_within_between.mp hji
      rw [le_antisymm low low', le_antisymm high high']

theorem within_union_left (i j : Interval Rat) : Within i (i.union j) := by
  cases i with
  | empty => exact .empty _
  | between a b =>
      cases j with
      | empty => exact .refl _
      | between c d => exact .between (by simp) (by simp)

theorem within_union_right (i j : Interval Rat) : Within j (i.union j) := by
  cases i with
  | empty => exact .refl _
  | between a b =>
      cases j with
      | empty => exact .empty _
      | between c d => exact .between (by simp) (by simp)

theorem Within.union {i j k : Interval Rat} (hi : Within i k) (hj : Within j k) :
    Within (i.union j) k := by
  cases hi with
  | empty => exact hj
  | between low high =>
      cases hj with
      | empty => exact .between low high
      | between low' high' => exact .between (by simp [low, low']) (by simp [high, high'])

/-- Intervals form a semilattice whose suprema are unions. -/
instance : SemilatticeSup (Interval Rat) where
  le := Within
  le_refl := Within.refl
  le_trans _ _ _ := Within.trans
  le_antisymm _ _ := Within.antisymm
  sup := union
  le_sup_left := within_union_left
  le_sup_right := within_union_right
  sup_le _ _ _ := Within.union

theorem empty_le (i : Interval Rat) : empty ≤ i := Within.empty i

theorem between_le_between_iff {a b c d : Rat} :
    between a b ≤ between c d ↔ c ≤ a ∧ b ≤ d := between_within_between

/-- Intervals that overlap go on overlapping when they grow. -/
theorem overlaps_mono {i i' j j' : Interval Rat} (hi : i ≤ i') (hj : j ≤ j')
    (h : i.overlaps j = true) : i'.overlaps j' = true := by
  cases hi with
  | empty => cases h
  | between low high =>
      cases hj with
      | empty => cases h
      | between low' high' =>
          simp only [overlaps, Bool.and_eq_true, decide_eq_true_eq] at h ⊢
          exact ⟨(low.trans_lt h.1).trans_le high', (low'.trans_lt h.2).trans_le high⟩

end Interval

namespace Box

/-- Boxes form a semilattice, in both directions at once. -/
instance : SemilatticeSup (Box Rat) where
  le a b := a.x ≤ b.x ∧ a.y ≤ b.y
  le_refl _ := ⟨le_rfl, le_rfl⟩
  le_trans _ _ _ hab hbc := ⟨hab.1.trans hbc.1, hab.2.trans hbc.2⟩
  le_antisymm a b hab hba := by
    obtain ⟨hx, hy⟩ := And.intro (le_antisymm hab.1 hba.1) (le_antisymm hab.2 hba.2)
    cases a
    cases b
    cases hx
    cases hy
    rfl
  sup := union
  le_sup_left _ _ := ⟨le_sup_left, le_sup_left⟩
  le_sup_right _ _ := ⟨le_sup_right, le_sup_right⟩
  sup_le _ _ _ hac hbc := ⟨sup_le hac.1 hbc.1, sup_le hac.2 hbc.2⟩

theorem le_iff {a b : Box Rat} : a ≤ b ↔ a.x ≤ b.x ∧ a.y ≤ b.y := Iff.rfl

theorem empty_le (a : Box Rat) : empty ≤ a := ⟨Interval.empty_le _, Interval.empty_le _⟩

/-- A box around a box that is not empty is not empty. -/
theorem exists_eq_of_le {left right top bottom : Rat} {b : Box Rat}
    (h : ⟨.between left right, .between top bottom⟩ ≤ b) :
    ∃ left' right' top' bottom', b = ⟨.between left' right', .between top' bottom'⟩ := by
  obtain ⟨x, y⟩ := b
  cases x with
  | empty => cases h.1
  | between left' right' =>
      cases y with
      | empty => cases h.2
      | between top' bottom' => exact ⟨left', right', top', bottom', rfl⟩

/-- Boxes that collide go on colliding when they grow. -/
theorem collides_mono {a a' b b' : Box Rat} (ha : a ≤ a') (hb : b ≤ b')
    (h : a.collides b = true) : a'.collides b' = true := by
  obtain ⟨hx, hy⟩ := Bool.and_eq_true_iff.mp h
  exact Bool.and_eq_true_iff.mpr
    ⟨Interval.overlaps_mono ha.1 hb.1 hx, Interval.overlaps_mono ha.2 hb.2 hy⟩

theorem collides_comm {α : Type} [Scalar α] (a b : Box α) : a.collides b = b.collides a := by
  have hoverlaps : ∀ i j : Interval α, i.overlaps j = j.overlaps i := by
    intro i j
    cases i with
    | empty => cases j <;> rfl
    | between =>
        cases j with
        | empty => rfl
        | between => exact Bool.and_comm _ _
  rw [collides, collides, hoverlaps a.x, hoverlaps a.y]

end Box

/-- The union of a box with those of some primitives lies in a box when all of them do. -/
theorem Box.foldl_union_le_iff (qs : List (Primitive Rat)) (b k : Box Rat) :
    qs.foldl (fun b q => b.union q.bounds) b ≤ k ↔ b ≤ k ∧ ∀ q ∈ qs, q.bounds ≤ k := by
  induction qs generalizing b with
  | nil => simp
  | cons q qs ih =>
      have hunion : b.union q.bounds ≤ k ↔ b ≤ k ∧ q.bounds ≤ k := sup_le_iff
      rw [List.foldl_cons, ih, hunion, List.forall_mem_cons, and_assoc]

namespace Fragment

/-- A drawing lies in a box when all its primitives do. -/
theorem bounds_le_iff {d : Fragment Rat} {k : Box Rat} :
    d.bounds ≤ k ↔ ∀ q ∈ d.primitives, q.bounds ≤ k :=
  (Box.foldl_union_le_iff d.primitives .empty k).trans (and_iff_right (Box.empty_le k))

theorem bounds_le {d : Fragment Rat} {q : Primitive Rat} (hq : q ∈ d.primitives) :
    q.bounds ≤ d.bounds := bounds_le_iff.mp le_rfl q hq

/-- **The bounds of a drawing are the least box around its primitives.** -/
theorem isLUB_bounds (d : Fragment Rat) :
    IsLUB {b | ∃ q ∈ d.primitives, q.bounds = b} d.bounds := by
  constructor
  · rintro _ ⟨q, hq, rfl⟩
    exact bounds_le hq
  · intro k hk
    exact bounds_le_iff.mpr fun q hq => hk ⟨q, hq, rfl⟩

end Fragment

end Tromp
