import Mathlib.Algebra.Order.Field.Basic
import Mathlib.Algebra.Order.Field.Rat
import Mathlib.Algebra.Order.Ring.Abs
import Mathlib.Data.List.Nodup
import Mathlib.Tactic.FieldSimp
import Mathlib.Tactic.NormNum
import Mathlib.Tactic.Positivity
import Tromp.Proofs.Grid.Cells
import Tromp.Proofs.Grid.Slant

/-!
# The course of a line

A line is drawn by a loop that stops when it stands on its end (`Grid.Pen.Draws`).  Nothing in the
loop counts steps, so that it stops at all is a fact about its cells: on a flat line a pen that stays
on course comes to the column of the end after as many steps as the line is long, never before, and
it is in the row of the end then.  Steep lines are flat ones with rows and columns exchanged.

A *course* is a run of cells along the longer side of a line, one step at a time, that keeps within
half a cell of the ideal line.  `Grid.drawLine_course` says that every line draws one, from any cell
to any other.
-/

namespace Tromp.Grid

variable {dx dy sx sy c1 r1 c2 r2 : Int} {p : Pen} {n k : Nat} {cells : List (Int × Int)}

/-- The loop that draws a line, as the cells that it takes: it stops at the end of the line, and goes
on with the next cell elsewhere. -/
inductive Pen.Draws (dx dy sx sy c2 r2 : Int) : Pen → List (Int × Int) → Prop where
  | stop {p : Pen} (here : p.col = c2 ∧ p.row = r2) : Draws dx dy sx sy c2 r2 p [(p.row, p.col)]
  | next {p : Pen} {cells : List (Int × Int)} (elsewhere : ¬ (p.col = c2 ∧ p.row = r2))
      (rest : Draws dx dy sx sy c2 r2 (p.advance dx dy sx sy) cells) :
      Draws dx dy sx sy c2 r2 p ((p.row, p.col) :: cells)

namespace Pen

/-- The loop can only go one way. -/
theorem Draws.unique {cells' : List (Int × Int)} (h : p.Draws dx dy sx sy c2 r2 cells)
    (h' : p.Draws dx dy sx sy c2 r2 cells') : cells = cells' := by
  induction h generalizing cells' with
  | stop here =>
      cases h' with
      | stop => rfl
      | next elsewhere => exact absurd here elsewhere
  | next elsewhere rest ih =>
      cases h' with
      | stop here => exact absurd here elsewhere
      | next _ rest' => rw [ih rest']

theorem Draws.head? (h : p.Draws dx dy sx sy c2 r2 cells) : cells.head? = some (p.row, p.col) := by
  cases h <;> rfl

/-- The loop stops at the end of the line only. -/
theorem Draws.getLast? (h : p.Draws dx dy sx sy c2 r2 cells) :
    cells.getLast? = some (r2, c2) := by
  induction h with
  | stop here => rw [List.getLast?_singleton, here.1, here.2]
  | next elsewhere rest ih => rw [List.getLast?_cons, ih]; rfl

theorem Draws.mirror (h : p.Draws dx dy sx sy c2 r2 cells) :
    p.mirror.Draws dy dx sy sx r2 c2 (cells.map Prod.swap) := by
  induction h with
  | stop here => exact .stop here.symm
  | next elsewhere rest ih =>
      refine .next (mt And.symm elsewhere) ?_
      rwa [← advance_mirror]

/-- **The loop of a flat line ends**, and has drawn as many cells by then as the line is long. -/
theorem OnCourse.draws {b : Int} (h : p.OnCourse dx dy sx sy c1 r1 k b) (hdy : 0 ≤ dy)
    (hflat : dy ≤ dx) (hsx : sx ≠ 0) (hn : ((k + n : Nat) : Int) = dx) :
    p.Draws dx dy sx sy (c1 + sx * dx) (r1 + sy * dy) (slantFrom dx dy sx sy n p) := by
  induction n generalizing p k b with
  | zero =>
      have hb := h.eq_of_arrived hdy hn
      refine .stop ⟨?_, ?_⟩
      · rw [h.col_eq, ← hn, Nat.add_zero]
      · rw [h.row_eq, hb]
  | succ n ih =>
      have hbefore : (k : Int) ≠ dx := by omega
      refine .next ?_ ?_
      · rintro ⟨hcol, -⟩
        rw [h.col_eq, add_right_inj, mul_right_inj' hsx] at hcol
        exact hbefore hcol
      · obtain ⟨b', hnext⟩ := h.advance hdy hflat
        exact ih hnext (by omega)

/-- A pen on course goes on by one column, and by one row at the most. -/
theorem OnCourse.advance_eq {b : Int} (h : p.OnCourse dx dy sx sy c1 r1 k b) :
    (p.advance dx dy sx sy).col = p.col + sx ∧
      ((p.advance dx dy sx sy).row = p.row ∨ (p.advance dx dy sx sy).row = p.row + sy) := by
  have hahead := h.ahead
  unfold Pen.advance
  constructor
  · exact if_pos hahead
  · dsimp only
    split
    · exact Or.inr rfl
    · exact Or.inl rfl

end Pen

@[simp] theorem length_slantFrom : (slantFrom dx dy sx sy n p).length = n + 1 := by
  induction n generalizing p with
  | zero => rfl
  | succ n ih => rw [slantFrom, List.length_cons, ih]

theorem head?_slantFrom : (slantFrom dx dy sx sy n p).head? = some (p.row, p.col) := by
  cases n <;> rfl

/-- Cells along a line from `(b1, a1)` to `(b2, a2)` whose second side is the longer.  Each is one
step ahead of the one before along that side, and beside it or one step ahead along the other; and
each is at most half a cell from the point of the ideal line that is level with it. -/
structure Course (a1 b1 a2 b2 : Int) (cells : List (Int × Int)) : Prop where
  advances : cells.IsChain fun p q =>
    q.2 = p.2 + heading a1 a2 ∧ (q.1 = p.1 ∨ q.1 = p.1 + heading b1 b2)
  near : ∀ p ∈ cells, ∃ t : Rat, (0 ≤ t ∧ t ≤ 1) ∧ (p.2 : Rat) = a1 + t * (a2 - a1) ∧
    |(p.1 : Rat) - (b1 + t * (b2 - b1))| ≤ 1 / 2

theorem heading_eq (a b : Int) : heading a b = 1 ∨ heading a b = -1 := by
  unfold heading
  split
  · exact Or.inl rfl
  · exact Or.inr rfl

/-- A course takes no cell twice. -/
theorem Course.nodup {a1 b1 a2 b2 : Int} (h : Course a1 b1 a2 b2 cells) : cells.Nodup := by
  have hsquare : heading a1 a2 * heading a1 a2 = 1 := by
    rcases heading_eq a1 a2 with h | h <;> rw [h] <;> rfl
  have hchain : cells.IsChain fun p q => heading a1 a2 * p.2 < heading a1 a2 * q.2 := by
    refine h.advances.imp ?_
    rintro p q ⟨hahead, -⟩
    rw [hahead, mul_add, hsquare]
    exact lt_add_one _
  have : IsTrans (Int × Int) fun p q => heading a1 a2 * p.2 < heading a1 a2 * q.2 :=
    ⟨fun _ _ _ => lt_trans⟩
  rw [List.isChain_iff_pairwise] at hchain
  refine hchain.imp ?_
  rintro p q hlt rfl
  exact lt_irrefl _ hlt

/-- A pen on course has at most half a step of drift. -/
theorem Pen.OnCourse.abs_drift_le {b : Int} (h : p.OnCourse dx dy sx sy c1 r1 k b) :
    2 * |b * dx - k * dy| ≤ dx := by
  have hge : dx - 2 * dy ≤ 2 * ((b + 1) * dx - (k + 1) * dy) := h.error_eq ▸ h.drift_ge
  have hlt : 2 * ((b + 1) * dx - (k + 1) * dy) < 3 * dx - 2 * dy := h.error_eq ▸ h.drift_lt
  rcases abs_cases (b * dx - k * dy) with ⟨habs, -⟩ | ⟨habs, -⟩ <;> rw [habs] <;> linarith

/-- A pen on course is at most half a cell away from the line, where the line is level with it. -/
theorem Pen.OnCourse.near {b : Int} (h : p.OnCourse dx dy sx sy c1 r1 k b) (hk : (k : Int) ≤ dx)
    (hsy : sy = 1 ∨ sy = -1) (hc : c1 + sx * dx = c2) (hr : r1 + sy * dy = r2) :
    ∃ t : Rat, (0 ≤ t ∧ t ≤ 1) ∧ (p.col : Rat) = c1 + t * (c2 - c1) ∧
      |(p.row : Rat) - (r1 + t * (r2 - r1))| ≤ 1 / 2 := by
  have hpos : (0 : Rat) < dx := by exact_mod_cast h.pos
  have hside : |(sy : Rat)| = 1 := by
    rcases hsy with rfl | rfl <;> norm_num
  have hdrift : 2 * |(b : Rat) * dx - k * dy| ≤ dx := by exact_mod_cast h.abs_drift_le
  have hdist : (p.row : Rat) - (r1 + k / dx * (r2 - r1)) = sy * ((b * dx - k * dy) / dx) := by
    rw [h.row_eq, ← hr]
    push_cast
    field_simp
    ring
  refine ⟨k / dx, ⟨by positivity, ?_⟩, ?_, ?_⟩
  · rw [div_le_one hpos]
    exact_mod_cast hk
  · rw [h.col_eq, ← hc]
    push_cast
    field_simp
    ring
  · rw [hdist, abs_mul, hside, one_mul, abs_div, abs_of_pos hpos, div_le_iff₀ hpos]
    linarith

/-- What a pen on course draws advances with it, and stays near the line. -/
theorem Pen.OnCourse.course_slantFrom {b : Int} (h : p.OnCourse dx dy sx sy c1 r1 k b)
    (hdy : 0 ≤ dy) (hflat : dy ≤ dx) (hn : ((k + n : Nat) : Int) = dx)
    (hsx : heading c1 c2 = sx) (hsy : heading r1 r2 = sy)
    (hc : c1 + sx * dx = c2) (hr : r1 + sy * dy = r2) :
    Course c1 r1 c2 r2 (slantFrom dx dy sx sy n p) := by
  have hside : sy = 1 ∨ sy = -1 := hsy ▸ heading_eq r1 r2
  have hhere := h.near (by omega) hside hc hr
  induction n generalizing p k b with
  | zero =>
      refine ⟨List.isChain_singleton _, ?_⟩
      intro q hq
      obtain rfl := List.mem_singleton.mp hq
      exact hhere
  | succ n ih =>
      obtain ⟨b', hnext⟩ := h.advance hdy hflat
      have hrest := ih hnext (by omega) (hnext.near (by omega) hside hc hr)
      refine ⟨?_, ?_⟩
      · rw [slantFrom, List.isChain_cons]
        refine ⟨?_, hrest.advances⟩
        intro q hq
        rw [head?_slantFrom] at hq
        obtain rfl := Option.some.inj hq
        rw [hsx, hsy]
        exact h.advance_eq
      · intro q hq
        rcases List.mem_cons.mp hq with rfl | hq
        · exact hhere
        · exact hrest.near q hq

/-- The cells of the loop between two cells. -/
def courseCells (c1 r1 c2 r2 : Int) : List (Int × Int) :=
  slantFrom (c2 - c1).natAbs (r2 - r1).natAbs (heading c1 c2) (heading r1 r2)
    (max (c2 - c1).natAbs (r2 - r1).natAbs) ⟨c1, r1, (c2 - c1).natAbs - (r2 - r1).natAbs⟩

/-- The run of the loop between two cells draws some cells. -/
def Draws (c1 r1 c2 r2 : Int) (cells : List (Int × Int)) : Prop :=
  Pen.Draws (c2 - c1).natAbs (r2 - r1).natAbs (heading c1 c2) (heading r1 r2) c2 r2
    ⟨c1, r1, (c2 - c1).natAbs - (r2 - r1).natAbs⟩ cells

theorem courseCells_swap (c1 r1 c2 r2 : Int) :
    courseCells r1 c1 r2 c2 = (courseCells c1 r1 c2 r2).map Prod.swap := by
  rw [courseCells, courseCells, ← slantFrom_mirror, max_comm, Pen.mirror, Int.neg_sub]

theorem Draws.swap (h : Draws r1 c1 r2 c2 cells) : Draws c1 r1 c2 r2 (cells.map Prod.swap) := by
  have hmirror := Pen.Draws.mirror h
  rwa [Pen.mirror, Int.neg_sub] at hmirror

/-- On a flat line the loop draws a course. -/
theorem course_of_flat (hflat : (r2 - r1).natAbs ≤ (c2 - c1).natAbs) :
    Draws c1 r1 c2 r2 (courseCells c1 r1 c2 r2) ∧ Course c1 r1 c2 r2 (courseCells c1 r1 c2 r2) := by
  rw [courseCells, max_eq_left hflat]
  by_cases hpoint : c1 = c2
  · -- A line of one cell.
    obtain rfl : r1 = r2 := by omega
    subst hpoint
    rw [Int.sub_self]
    refine ⟨.stop ⟨rfl, rfl⟩, List.isChain_singleton _, ?_⟩
    intro q hq
    obtain rfl := List.mem_singleton.mp hq
    exact ⟨0, by norm_num, by simp, by simp⟩
  · have hdx : (0 : Int) < (c2 - c1).natAbs := by omega
    have hdy : (0 : Int) ≤ (r2 - r1).natAbs := by omega
    have hle : ((r2 - r1).natAbs : Int) ≤ (c2 - c1).natAbs := by omega
    have hstart : Pen.OnCourse (c2 - c1).natAbs (r2 - r1).natAbs (heading c1 c2) (heading r1 r2)
        c1 r1 0 0 ⟨c1, r1, (c2 - c1).natAbs - (r2 - r1).natAbs⟩ := Pen.onCourse_start hdx hdy hle
    have hc := add_heading_mul_natAbs c1 c2
    have hr := add_heading_mul_natAbs r1 r2
    have hsx : heading c1 c2 ≠ 0 := by
      rcases heading_eq c1 c2 with h | h <;> rw [h] <;> decide
    refine ⟨?_, hstart.course_slantFrom hdy hle (by omega) rfl rfl hc hr⟩
    have hdraws := hstart.draws (n := (c2 - c1).natAbs) hdy hle hsx (by omega)
    rwa [hc, hr] at hdraws

/-- Along a row the loop takes one column after the other. -/
theorem slantFrom_level (hdx : 0 < dx) (h : dx ≤ 2 * p.error) :
    slantFrom dx 0 sx sy n p =
      (List.range (n + 1)).map fun (k : Nat) => (p.row, p.col + sx * k) := by
  induction n generalizing p with
  | zero => simp [slantFrom]
  | succ n ih =>
      have hnext : p.advance dx 0 sx sy = ⟨p.col + sx, p.row, p.error⟩ := by
        have hpos : 0 < p.error := by omega
        have hdown : ¬ 2 * p.error < dx := by omega
        simp [Pen.advance, hpos, hdown]
      have hrest := ih (p := ⟨p.col + sx, p.row, p.error⟩) h
      rw [slantFrom, hnext, hrest, List.range_succ_eq_map (n := n + 1), List.map_cons, List.map_map]
      simp only [Nat.cast_zero, mul_zero, add_zero, List.cons.injEq, true_and]
      apply List.map_congr_left
      intro k _
      simp only [Function.comp_apply, Nat.succ_eq_add_one, Nat.cast_add, Nat.cast_one, Prod.mk.injEq,
        true_and]
      ring

/-- A line along a row is drawn from left to right, whichever of its ends comes first. -/
theorem lineCells_level (c1 c2 r : Int) :
    lineCells c1 r c2 r = courseCells c1 r c2 r ∨
      lineCells c1 r c2 r = (courseCells c1 r c2 r).reverse := by
  by_cases hpoint : c1 = c2
  · left
    simp [hpoint, lineCells, courseCells, slantFrom]
  · have hdx : (0 : Int) < (c2 - c1).natAbs := by omega
    have hcourse : courseCells c1 r c2 r = (List.range ((c2 - c1).natAbs + 1)).map
        fun (k : Nat) => (r, c1 + heading c1 c2 * k) := by
      unfold courseCells
      simp only [Int.sub_self, Int.natAbs_zero, Nat.cast_zero, Int.sub_zero, Nat.max_zero]
      exact slantFrom_level hdx (by dsimp only; omega)
    have hline : lineCells c1 r c2 r = (List.range ((c2 - c1).natAbs + 1)).map
        fun (k : Nat) => (r, min c1 c2 + (k : Int)) := if_pos rfl
    rw [hcourse, hline]
    rcases lt_or_gt_of_ne hpoint with hlt | hgt
    · left
      apply List.map_congr_left
      intro k _
      rw [heading, if_pos hlt, min_eq_left hlt.le, one_mul]
    · right
      apply List.ext_getElem (by simp)
      intro k hk _
      simp only [List.length_map, List.length_range] at hk
      have hheading : heading c1 c2 = -1 := if_neg hgt.not_gt
      simp only [List.getElem_map, List.getElem_range, List.getElem_reverse, List.length_map,
        List.length_range, hheading, Prod.mk.injEq, true_and]
      omega

theorem lineCells_swap {c1 r1 c2 r2 : Int} (h : c1 = c2) :
    lineCells c1 r1 c2 r2 = (lineCells r1 c1 r2 c2).map Prod.swap := by
  subst h
  by_cases hr : r1 = r2
  · simp [lineCells, hr]
  · simp [lineCells, hr]

/-- **What is drawn of a line** are the cells of the loop.  Along a row or a column they may be drawn
in the other order. -/
theorem lineCells_eq (c1 r1 c2 r2 : Int) :
    lineCells c1 r1 c2 r2 = courseCells c1 r1 c2 r2 ∨
      (r1 = r2 ∨ c1 = c2) ∧ lineCells c1 r1 c2 r2 = (courseCells c1 r1 c2 r2).reverse := by
  by_cases hr : r1 = r2
  · subst hr
    exact (lineCells_level c1 c2 r1).imp_right (And.intro (Or.inl rfl))
  · by_cases hc : c1 = c2
    · rw [courseCells_swap r1 c1 r2 c2, lineCells_swap hc, ← List.map_reverse]
      subst hc
      rcases lineCells_level r1 r2 c1 with h | h <;> rw [h]
      · exact Or.inl rfl
      · exact Or.inr ⟨Or.inr rfl, rfl⟩
    · left
      simp only [lineCells, if_neg hr, if_neg hc]
      rfl

/-- **A line is drawn well, and its drawing ends.**  The loop between any two cells stops, with one
cell more than the longer side of the line is long, from the one end to the other and no cell twice.
Along the longer side its cells are a course (along both, where the sides are equal).  These are the
cells on the grid that change, each by the character of the line drawn over it; along a row or a
column they may be taken in the other order. -/
theorem drawLine_course (g : Grid) (c1 r1 c2 r2 : Int) :
    ∃ cells, (∀ run, Draws c1 r1 c2 r2 run ↔ run = cells) ∧
      cells.length = max (c2 - c1).natAbs (r2 - r1).natAbs + 1 ∧ cells.Nodup ∧
      cells.head? = some (r1, c1) ∧ cells.getLast? = some (r2, c2) ∧
      ((r2 - r1).natAbs ≤ (c2 - c1).natAbs → Course c1 r1 c2 r2 cells) ∧
      ((c2 - c1).natAbs ≤ (r2 - r1).natAbs → Course r1 c1 r2 c2 (cells.map Prod.swap)) ∧
      (lineCells c1 r1 c2 r2 = cells ∨
        (r1 = r2 ∨ c1 = c2) ∧ lineCells c1 r1 c2 r2 = cells.reverse) ∧
      (g.drawLine c1 r1 c2 r2).rows = g.rows ∧ (g.drawLine c1 r1 c2 r2).cols = g.cols ∧
      ∀ i j, (g.drawLine c1 r1 c2 r2).get? i j =
        if (i, j) ∈ cells then (g.get? i j).map (Glyph.drawnOver (lineGlyph c1 r1 c2 r2))
        else g.get? i j := by
  have hsteep : (c2 - c1).natAbs ≤ (r2 - r1).natAbs →
      Draws c1 r1 c2 r2 (courseCells c1 r1 c2 r2) ∧
        Course r1 c1 r2 c2 ((courseCells c1 r1 c2 r2).map Prod.swap) := by
    intro h
    obtain ⟨hdraws, hcourse⟩ := course_of_flat h
    rw [← courseCells_swap]
    refine ⟨?_, hcourse⟩
    rw [courseCells_swap]
    exact hdraws.swap
  have hdraws : Draws c1 r1 c2 r2 (courseCells c1 r1 c2 r2) := by
    rcases le_total (r2 - r1).natAbs (c2 - c1).natAbs with h | h
    · exact (course_of_flat h).1
    · exact (hsteep h).1
  have hnodup : (courseCells c1 r1 c2 r2).Nodup := by
    rcases le_total (r2 - r1).natAbs (c2 - c1).natAbs with h | h
    · exact (course_of_flat h).2.nodup
    · exact (hsteep h).2.nodup.of_map _
  have hcells := lineCells_eq c1 r1 c2 r2
  refine ⟨courseCells c1 r1 c2 r2, ?runs, length_slantFrom, hnodup, Pen.Draws.head? hdraws,
    Pen.Draws.getLast? hdraws, fun h => (course_of_flat h).2, fun h => (hsteep h).2, hcells,
    rows_putAll _, cols_putAll _, ?drawn⟩
  case runs =>
    intro run
    constructor
    · exact fun h => Pen.Draws.unique h hdraws
    · rintro rfl
      exact hdraws
  case drawn =>
    intro i j
    have hmem : (i, j) ∈ lineCells c1 r1 c2 r2 ↔ (i, j) ∈ courseCells c1 r1 c2 r2 := by
      rcases hcells with h | ⟨-, h⟩ <;> rw [h]
      exact List.mem_reverse
    rw [drawLine, get?_putAll]
    simp only [hmem]

end Tromp.Grid
