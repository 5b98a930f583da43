import Tromp.Grid.Line

/-!
# The cells of a grid

A grid is known by its dimensions and by `Grid.get?`, and every operation is described by what it
does to the view `get?`: drawing a character changes the cell where it is drawn, by
`Glyph.drawnOver`, and no other.

A cell knows three stages: empty, showing one character, and crossed.  Drawing moves it upwards, and
the stage and character it ends with do not depend on the order in which characters other than the
empty one were drawn (`Glyph.drawnOver_comm`).  Lifted through the cells of a line and through
whole lines this gives `Grid.drawLine_comm`.
-/

namespace Tromp

namespace Glyph

/-- Of two characters drawn over a cell it does not matter which comes first. -/
theorem drawnOver_comm {a b : Char} (ha : a ≠ blank) (hb : b ≠ blank) (x : Char) :
    drawnOver a (drawnOver b x) = drawnOver b (drawnOver a x) := by
  by_cases hab : a = b
  · rw [hab]
  · have hmarker : marker ≠ blank := by decide
    grind [drawnOver]

/-- Drawing a character twice over a cell changes nothing more. -/
theorem drawnOver_drawnOver (a x : Char) : drawnOver a (drawnOver a x) = drawnOver a x := by
  have hmarker : marker ≠ blank := by decide
  grind [drawnOver]

end Glyph

namespace Grid

variable {g h : Grid} {row col row' col' i j : Int} {a b : Char}

theorem get?_of_not_inside (hi : ¬ g.Inside i j) : g.get? i j = none := by
  simp [get?, hi]

theorem get?_isSome_iff : (g.get? i j).isSome ↔ g.Inside i j := by
  by_cases hi : g.Inside i j <;> simp [get?, hi]

theorem inside_of_get? {x : Char} (h : g.get? i j = some x) : g.Inside i j := by
  rw [← get?_isSome_iff, h]
  rfl

/-- Grids of the same dimensions have the same positions. -/
theorem inside_congr (hrows : g.rows = h.rows) (hcols : g.cols = h.cols) :
    g.Inside i j ↔ h.Inside i j := by
  rw [Inside, Inside, hrows, hcols]

theorem get?_blank {rows cols : Nat} (hi : (blank rows cols).Inside i j) :
    (blank rows cols).get? i j = some Glyph.blank := by
  rw [get?, dif_pos hi]
  simp [blank]

/-- A pass over all cells changes each of them by its position and its character. -/
theorem get?_mapCells (f : Int → Int → Char → Char) :
    (g.mapCells fun r c x => f r c x).get? i j = (g.get? i j).map (f i j) := by
  have hsame : (g.mapCells fun r c x => f r c x).Inside i j ↔ g.Inside i j := inside_congr rfl rfl
  by_cases hi : g.Inside i j
  · rw [get?, get?, dif_pos hi, dif_pos (hsame.mpr hi)]
    obtain ⟨hi0, -, hj0, -⟩ := hi
    simp [mapCells, Int.toNat_of_nonneg hi0, Int.toNat_of_nonneg hj0]
  · rw [get?_of_not_inside hi, get?_of_not_inside (mt hsame.mp hi)]
    rfl

/-- Grids with the same dimensions and the same cells are the same. -/
theorem ext_get? (hrows : g.rows = h.rows) (hcols : g.cols = h.cols)
    (hget : ∀ i j, g.get? i j = h.get? i j) : g = h := by
  obtain ⟨rows, cols, cells⟩ := g
  obtain ⟨rows', cols', cells'⟩ := h
  obtain rfl : rows = rows' := hrows
  obtain rfl : cols = cols' := hcols
  congr 1
  apply Vector.ext
  intro r hr
  apply Vector.ext
  intro c hc
  have hcell := hget r c
  simpa [get?, Inside, hr, hc] using hcell

@[simp] theorem rows_put : (g.put row col a).rows = g.rows := by
  unfold put
  split <;> rfl

@[simp] theorem cols_put : (g.put row col a).cols = g.cols := by
  unfold put
  split <;> rfl

/-- Drawing a character changes the cell where it is drawn, and no other. -/
theorem get?_put : (g.put row col a).get? i j =
    if i = row ∧ j = col then (g.get? i j).map (Glyph.drawnOver a) else g.get? i j := by
  unfold put
  split
  next hp =>
      obtain ⟨hrow, -, hcol, -⟩ := hp
      by_cases hi : g.Inside i j
      · obtain ⟨hi0, hi1, hj0, hj1⟩ := hi
        by_cases hir : i = row
        · subst hir
          by_cases hjc : j = col
          · subst hjc
            simp [get?, Inside, hi0, hi1, hj0, hj1]
          · have hne : col.toNat ≠ j.toNat := by omega
            simp [get?, Inside, hi0, hi1, hj0, hj1, hjc, hne]
        · have hne : row.toNat ≠ i.toNat := by omega
          simp [get?, Inside, hi0, hi1, hj0, hj1, hir, hne]
      · simp only [get?, Inside] at hi ⊢
        simp [hi]
  next hp =>
      -- Nothing is drawn off the grid, and nothing is there.
      split
      next hij =>
          obtain ⟨rfl, rfl⟩ := hij
          simp [get?_of_not_inside hp]
      next => rfl

@[simp] theorem rows_putAll (ps : List (Int × Int)) : (g.putAll a ps).rows = g.rows := by
  induction ps generalizing g with
  | nil => rfl
  | cons p ps ih => exact ih.trans rows_put

@[simp] theorem cols_putAll (ps : List (Int × Int)) : (g.putAll a ps).cols = g.cols := by
  induction ps generalizing g with
  | nil => rfl
  | cons p ps ih => exact ih.trans cols_put

/-- Drawing a character at several positions changes those cells, and no other. -/
theorem get?_putAll (ps : List (Int × Int)) : (g.putAll a ps).get? i j =
    if (i, j) ∈ ps then (g.get? i j).map (Glyph.drawnOver a) else g.get? i j := by
  induction ps generalizing g with
  | nil => rfl
  | cons p ps ih =>
      have hhere : (i, j) = p ↔ i = p.1 ∧ j = p.2 := Prod.ext_iff
      have hstep : (g.putAll a (p :: ps)).get? i j = ((g.put p.1 p.2 a).putAll a ps).get? i j := rfl
      rw [hstep, ih, get?_put]
      simp only [List.mem_cons, hhere]
      by_cases hp : i = p.1 ∧ j = p.2
      · -- The first position may come again among the others.
        rw [if_pos hp, if_pos (Or.inl hp), Option.map_map]
        by_cases hps : (i, j) ∈ ps
        · have htwice : Glyph.drawnOver a ∘ Glyph.drawnOver a = Glyph.drawnOver a :=
            funext (Glyph.drawnOver_drawnOver a)
          rw [if_pos hps, htwice]
        · rw [if_neg hps]
      · simp [hp]

/-- Characters can be drawn at two positions, or twice at one, in either order. -/
theorem put_comm (ha : a ≠ Glyph.blank) (hb : b ≠ Glyph.blank) :
    (g.put row col a).put row' col' b = (g.put row' col' b).put row col a := by
  apply ext_get? (by simp) (by simp)
  intro i j
  simp only [get?_put]
  by_cases hp : i = row ∧ j = col
  · by_cases hq : i = row' ∧ j = col'
    · simp only [if_pos hp, if_pos hq]
      cases g.get? i j with
      | none => rfl
      | some x => simp [Glyph.drawnOver_comm hb ha]
    · simp only [if_pos hp, if_neg hq]
  · simp only [if_neg hp]

theorem putAll_put_comm (ha : a ≠ Glyph.blank) (hb : b ≠ Glyph.blank) (ps : List (Int × Int)) :
    (g.putAll a ps).put row col b = (g.put row col b).putAll a ps := by
  induction ps generalizing g with
  | nil => rfl
  | cons p ps ih =>
      have hstep : (g.put p.1 p.2 a).put row col b = (g.put row col b).put p.1 p.2 a :=
        put_comm ha hb
      calc ((g.put p.1 p.2 a).putAll a ps).put row col b
          = ((g.put p.1 p.2 a).put row col b).putAll a ps := ih
        _ = ((g.put row col b).put p.1 p.2 a).putAll a ps := by rw [hstep]

theorem putAll_comm (ha : a ≠ Glyph.blank) (hb : b ≠ Glyph.blank) (ps qs : List (Int × Int)) :
    (g.putAll a ps).putAll b qs = (g.putAll b qs).putAll a ps := by
  induction qs generalizing g with
  | nil => rfl
  | cons q qs ih =>
      have hstep : (g.putAll a ps).put q.1 q.2 b = (g.put q.1 q.2 b).putAll a ps :=
        putAll_put_comm ha hb ps
      calc ((g.putAll a ps).put q.1 q.2 b).putAll b qs
          = ((g.put q.1 q.2 b).putAll a ps).putAll b qs := by rw [hstep]
        _ = ((g.put q.1 q.2 b).putAll b qs).putAll a ps := ih

/-- No line is drawn with the empty character. -/
theorem lineGlyph_ne_blank (c1 r1 c2 r2 : Int) : lineGlyph c1 r1 c2 r2 ≠ Glyph.blank := by
  simp only [lineGlyph]
  repeat' split
  all_goals decide

/-- Two lines can be drawn in either order. -/
theorem drawLine_comm (c1 r1 c2 r2 c1' r1' c2' r2' : Int) :
    (g.drawLine c1 r1 c2 r2).drawLine c1' r1' c2' r2' =
      (g.drawLine c1' r1' c2' r2').drawLine c1 r1 c2 r2 :=
  putAll_comm (lineGlyph_ne_blank _ _ _ _) (lineGlyph_ne_blank _ _ _ _) _ _

/-- A line along a row or a column can be drawn from either end. -/
theorem drawLine_swap {c1 r1 c2 r2 : Int} (h : c1 = c2 ∨ r1 = r2) :
    g.drawLine c2 r2 c1 r1 = g.drawLine c1 r1 c2 r2 := by
  have hx : (c1 - c2).natAbs = (c2 - c1).natAbs := by omega
  have hy : (r1 - r2).natAbs = (r2 - r1).natAbs := by omega
  have hglyph : lineGlyph c2 r2 c1 r1 = lineGlyph c1 r1 c2 r2 := by grind [lineGlyph]
  have hcells : lineCells c2 r2 c1 r1 = lineCells c1 r1 c2 r2 := by grind [lineCells]
  rw [drawLine, drawLine, hglyph, hcells]

end Grid

end Tromp
