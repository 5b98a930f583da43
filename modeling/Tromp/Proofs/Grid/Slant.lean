import Mathlib.Tactic.Linarith
import Mathlib.Tactic.Ring
import Tromp.Grid.Line

/-!
# Slanted lines

A slanted line never leaves the rectangle between its ends, and it arrives.  Along its longer side a
pen advances at every step, so only the shorter side has to be watched.  There the invariant is the
*drift*: how far the pen is from the ideal line, measured in parts of the longer side.  A step keeps
the drift below one half (`Pen.OnCourse.advance`), and a pen that is so close to the line cannot have
left the rectangle.

All this is said of flat lines, which are longer from left to right.  Steep ones are flat when rows
and columns are exchanged (`Pen.mirror`).
-/

namespace Tromp.Grid

variable {dx dy sx sy c1 r1 c2 r2 i j : Int} {p q : Pen} {n k : Nat}

namespace Pen

/-- The pen with rows and columns exchanged. -/
def mirror (p : Pen) : Pen := ⟨p.row, p.col, -p.error⟩

theorem advance_mirror : (p.advance dx dy sx sy).mirror = p.mirror.advance dy dx sy sx := by
  have hacross : (-dy < 2 * p.error) ↔ (2 * -p.error < dy) := by omega
  have hdown : (2 * p.error < dx) ↔ (-dx < 2 * -p.error) := by omega
  unfold advance mirror
  simp only [hacross, hdown, Pen.mk.injEq, true_and]
  split <;> split <;> omega

/-- A pen that came `k` steps along a flat line and `b` steps across it, with less than half a step
of drift. -/
structure OnCourse (dx dy sx sy c1 r1 : Int) (k : Nat) (b : Int) (p : Pen) : Prop where
  col_eq : p.col = c1 + sx * k
  row_eq : p.row = r1 + sy * b
  error_eq : p.error = (b + 1) * dx - (k + 1) * dy
  nonneg : 0 ≤ b
  drift_ge : dx - 2 * dy ≤ 2 * p.error
  drift_lt : 2 * p.error < 3 * dx - 2 * dy
  ahead : -dy < 2 * p.error

theorem onCourse_start (hdx : 0 < dx) (hdy : 0 ≤ dy) (hflat : dy ≤ dx) :
    OnCourse dx dy sx sy c1 r1 0 0 ⟨c1, r1, dx - dy⟩ := by
  constructor <;> simp <;> omega

/-- **One step keeps a pen on course.** -/
theorem OnCourse.advance {b : Int} (h : OnCourse dx dy sx sy c1 r1 k b p) (hdy : 0 ≤ dy)
    (hflat : dy ≤ dx) : ∃ b', OnCourse dx dy sx sy c1 r1 (k + 1) b' (p.advance dx dy sx sy) := by
  obtain ⟨hcol, hrow, herror, hb, hge, hlt, hahead⟩ := h
  have hcol' : p.col + sx = c1 + sx * ((k + 1 : Nat) : Int) := by
    rw [hcol]
    push_cast
    ring
  by_cases hdown : 2 * p.error < dx
  · refine ⟨b + 1, ?_⟩
    have hrow' : p.row + sy = r1 + sy * (b + 1) := by
      rw [hrow]
      ring
    have herror' : p.error - dy + dx = (b + 1 + 1) * dx - ((k + 1 : Nat) + 1) * dy := by
      rw [herror]
      push_cast
      ring
    have hnext : p.advance dx dy sx sy = ⟨p.col + sx, p.row + sy, p.error - dy + dx⟩ := by
      simp [Pen.advance, hahead, hdown]
    rw [hnext]
    refine ⟨hcol', hrow', herror', by omega, ?_, ?_, ?_⟩ <;> dsimp only <;> omega
  · refine ⟨b, ?_⟩
    have herror' : p.error - dy + 0 = (b + 1) * dx - ((k + 1 : Nat) + 1) * dy := by
      rw [herror]
      push_cast
      ring
    have hnext : p.advance dx dy sx sy = ⟨p.col + sx, p.row, p.error - dy + 0⟩ := by
      simp [Pen.advance, hahead, hdown]
    rw [hnext]
    refine ⟨hcol', hrow, herror', hb, ?_, ?_, ?_⟩ <;> dsimp only <;> omega

/-- Only a line of some length has pens on course. -/
theorem OnCourse.pos {b : Int} (h : OnCourse dx dy sx sy c1 r1 k b p) : 0 < dx := by
  have hge := h.drift_ge
  have hlt := h.drift_lt
  omega

/-- A pen on course has not come further across the line than its end. -/
theorem OnCourse.le {b : Int} (h : OnCourse dx dy sx sy c1 r1 k b p) (hdy : 0 ≤ dy)
    (hk : (k : Int) ≤ dx) : b ≤ dy := by
  have hlt : 2 * ((b + 1) * dx - (k + 1) * dy) < 3 * dx - 2 * dy := h.error_eq ▸ h.drift_lt
  by_contra hb
  have hover : (dy + 1) * dx ≤ b * dx := mul_le_mul_of_nonneg_right (by omega) (by omega)
  have hway : (k : Int) * dy ≤ dx * dy := mul_le_mul_of_nonneg_right hk (by omega)
  linarith

/-- After as many steps as the line is long, a pen on course is at the end. -/
theorem OnCourse.eq_of_arrived {b : Int} (h : OnCourse dx dy sx sy c1 r1 k b p) (hdy : 0 ≤ dy)
    (hk : (k : Int) = dx) : b = dy := by
  have hge : dx - 2 * dy ≤ 2 * ((b + 1) * dx - (k + 1) * dy) := h.error_eq ▸ h.drift_ge
  have hle := h.le hdy hk.le
  have hpos := h.pos
  by_contra hne
  have hshort : b * dx ≤ (dy - 1) * dx := mul_le_mul_of_nonneg_right (by omega) (by omega)
  rw [hk] at hge
  linarith

end Pen

/-- Exchanging rows and columns turns a steep line into a flat one. -/
theorem slantFrom_mirror :
    slantFrom dy dx sy sx n p.mirror = (slantFrom dx dy sx sy n p).map Prod.swap := by
  induction n generalizing p with
  | zero => rfl
  | succ n ih =>
      rw [slantFrom, slantFrom, List.map_cons, ← ih, Pen.advance_mirror]
      rfl

theorem mem_slantFrom_mirror :
    (i, j) ∈ slantFrom dx dy sx sy n p ↔ (j, i) ∈ slantFrom dy dx sy sx n p.mirror := by
  rw [slantFrom_mirror]
  simp

/-- Every cell of a flat line is that of a pen on course. -/
theorem exists_onCourse_of_mem {b : Int} (hp : p.OnCourse dx dy sx sy c1 r1 k b) (hdy : 0 ≤ dy)
    (hflat : dy ≤ dx) (h : (i, j) ∈ slantFrom dx dy sx sy n p) :
    ∃ k' b', k' ≤ k + n ∧ ∃ q : Pen, q.OnCourse dx dy sx sy c1 r1 k' b' ∧ q.row = i ∧ q.col = j := by
  induction n generalizing p k b with
  | zero =>
      obtain ⟨rfl, rfl⟩ : i = p.row ∧ j = p.col := by simpa [slantFrom] using h
      exact ⟨k, b, by omega, p, hp, rfl, rfl⟩
  | succ n ih =>
      rcases List.mem_cons.mp h with hhere | hthere
      · obtain ⟨rfl, rfl⟩ := Prod.mk.inj hhere
        exact ⟨k, b, by omega, p, hp, rfl, rfl⟩
      · obtain ⟨b', hnext⟩ := hp.advance hdy hflat
        obtain ⟨k', b'', hk', q, hq⟩ := ih hnext hthere
        exact ⟨k', b'', by omega, q, hq⟩

/-- A flat line takes one cell for every step along it. -/
theorem exists_mem_onCourse {b : Int} (hp : p.OnCourse dx dy sx sy c1 r1 k b) (hdy : 0 ≤ dy)
    (hflat : dy ≤ dx) :
    ∃ b', ∃ q : Pen, q.OnCourse dx dy sx sy c1 r1 (k + n) b' ∧
      (q.row, q.col) ∈ slantFrom dx dy sx sy n p := by
  induction n generalizing p k b with
  | zero => exact ⟨b, p, hp, by simp [slantFrom]⟩
  | succ n ih =>
      obtain ⟨b', hnext⟩ := hp.advance hdy hflat
      obtain ⟨b'', q, hq, hmem⟩ := ih hnext
      refine ⟨b'', q, ?_, List.mem_cons_of_mem _ hmem⟩
      rwa [Nat.add_right_comm] at hq

theorem add_heading_mul_natAbs (a b : Int) : a + heading a b * (b - a).natAbs = b := by
  unfold heading
  split <;> omega

/-- Whatever is on the way from one integer to another is between them. -/
theorem heading_between {a b m : Int} (hm : 0 ≤ m) (hle : m ≤ (b - a).natAbs) :
    min a b ≤ a + heading a b * m ∧ a + heading a b * m ≤ max a b := by
  unfold heading
  split <;> omega

/-- A flat line stays between its ends. -/
theorem bounds_of_mem_flat (hr : r1 ≠ r2) (hflat : (r2 - r1).natAbs ≤ (c2 - c1).natAbs)
    (h : (i, j) ∈ slantFrom (c2 - c1).natAbs (r2 - r1).natAbs (heading c1 c2) (heading r1 r2)
      (c2 - c1).natAbs ⟨c1, r1, (c2 - c1).natAbs - (r2 - r1).natAbs⟩) :
    (min r1 r2 ≤ i ∧ i ≤ max r1 r2) ∧ (min c1 c2 ≤ j ∧ j ≤ max c1 c2) := by
  have hdx : (0 : Int) < (c2 - c1).natAbs := by omega
  have hdy : (0 : Int) ≤ (r2 - r1).natAbs := by omega
  have hle : ((r2 - r1).natAbs : Int) ≤ (c2 - c1).natAbs := by omega
  obtain ⟨k, b, hk, q, hq, rfl, rfl⟩ :=
    exists_onCourse_of_mem (Pen.onCourse_start hdx hdy hle) hdy hle h
  have hk' : (k : Int) ≤ (c2 - c1).natAbs := by omega
  rw [hq.row_eq, hq.col_eq]
  exact ⟨heading_between hq.nonneg (hq.le hdy hk'), heading_between (by omega) hk'⟩

/-- A flat line arrives. -/
theorem end_mem_flat (hr : r1 ≠ r2) (hflat : (r2 - r1).natAbs ≤ (c2 - c1).natAbs) :
    (r2, c2) ∈ slantFrom (c2 - c1).natAbs (r2 - r1).natAbs (heading c1 c2) (heading r1 r2)
      (c2 - c1).natAbs ⟨c1, r1, (c2 - c1).natAbs - (r2 - r1).natAbs⟩ := by
  have hdx : (0 : Int) < (c2 - c1).natAbs := by omega
  have hdy : (0 : Int) ≤ (r2 - r1).natAbs := by omega
  have hle : ((r2 - r1).natAbs : Int) ≤ (c2 - c1).natAbs := by omega
  have hstart : Pen.OnCourse (c2 - c1).natAbs (r2 - r1).natAbs (heading c1 c2) (heading r1 r2)
      c1 r1 0 0 ⟨c1, r1, (c2 - c1).natAbs - (r2 - r1).natAbs⟩ := Pen.onCourse_start hdx hdy hle
  obtain ⟨b, q, hq, hmem⟩ := exists_mem_onCourse (n := (c2 - c1).natAbs) hstart hdy hle
  have hb := hq.eq_of_arrived hdy (by omega)
  have hrow : q.row = r2 := by rw [hq.row_eq, hb, add_heading_mul_natAbs]
  have hcol : q.col = c2 := by
    rw [hq.col_eq, Nat.zero_add, add_heading_mul_natAbs]
  rwa [hrow, hcol] at hmem

/-- **A line stays in the rectangle between its ends.** -/
theorem bounds_of_mem_lineCells (h : (i, j) ∈ lineCells c1 r1 c2 r2) :
    (min r1 r2 ≤ i ∧ i ≤ max r1 r2) ∧ (min c1 c2 ≤ j ∧ j ≤ max c1 c2) := by
  unfold lineCells at h
  by_cases hr : r1 = r2
  · obtain ⟨k, hk, rfl, rfl⟩ : ∃ k < (c2 - c1).natAbs + 1, r1 = i ∧ min c1 c2 + (k : Int) = j := by
      simpa [hr] using h
    omega
  · by_cases hc : c1 = c2
    · obtain ⟨k, hk, rfl, rfl⟩ : ∃ k < (r2 - r1).natAbs + 1, min r1 r2 + (k : Int) = i ∧ c1 = j := by
        simpa [hr, hc] using h
      omega
    · simp only [if_neg hr, if_neg hc] at h
      rcases le_total (r2 - r1).natAbs (c2 - c1).natAbs with hflat | hsteep
      · rw [max_eq_left hflat] at h
        exact bounds_of_mem_flat hr hflat h
      · rw [max_eq_right hsteep, mem_slantFrom_mirror, Pen.mirror, Int.neg_sub] at h
        exact (bounds_of_mem_flat hc hsteep h).symm

theorem start_mem_slantFrom : (p.row, p.col) ∈ slantFrom dx dy sx sy n p := by
  cases n <;> simp [slantFrom]

/-- **A line reaches both its ends.** -/
theorem ends_mem_lineCells (c1 r1 c2 r2 : Int) :
    (r1, c1) ∈ lineCells c1 r1 c2 r2 ∧ (r2, c2) ∈ lineCells c1 r1 c2 r2 := by
  unfold lineCells
  by_cases hr : r1 = r2
  · have hfirst : ∃ k < (c2 - c1).natAbs + 1, min c1 c2 + (k : Int) = c1 :=
      ⟨(c1 - min c1 c2).toNat, by omega⟩
    have hlast : ∃ k < (c2 - c1).natAbs + 1, min c1 c2 + (k : Int) = c2 :=
      ⟨(c2 - min c1 c2).toNat, by omega⟩
    simpa [hr] using And.intro hfirst hlast
  · by_cases hc : c1 = c2
    · have hfirst : ∃ k < (r2 - r1).natAbs + 1, min r1 r2 + (k : Int) = r1 :=
        ⟨(r1 - min r1 r2).toNat, by omega⟩
      have hlast : ∃ k < (r2 - r1).natAbs + 1, min r1 r2 + (k : Int) = r2 :=
        ⟨(r2 - min r1 r2).toNat, by omega⟩
      simpa [hr, hc] using And.intro hfirst hlast
    · simp only [if_neg hr, if_neg hc]
      refine ⟨start_mem_slantFrom, ?_⟩
      rcases le_total (r2 - r1).natAbs (c2 - c1).natAbs with hflat | hsteep
      · rw [max_eq_left hflat]
        exact end_mem_flat hr hflat
      · rw [max_eq_right hsteep, mem_slantFrom_mirror, Pen.mirror, Int.neg_sub]
        exact end_mem_flat hc hsteep

end Tromp.Grid
