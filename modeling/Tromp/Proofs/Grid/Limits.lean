import Tromp.Proofs.Grid.Coverage
import Tromp.Proofs.Grid.Trimming

/-!
# The limits of a raster

However broad or tall a canvas is, and wherever its lines lead, its raster has a limited size and
its text is a rectangle within it (`Raster.ofLines_limits`).

1.  Columns are limited by the most that a drawing asks for, a quarter more on a broad canvas, and
    by the terminal (`Raster.columns_le`, `Raster.columns_le_terminal`), rows by the columns
    (`Raster.rows_le`).
2.  A raster shows only empty cells and characters that have arms, and a line break is neither
    (`Raster.isDrawn_of_get?_ofCells`).  So the rows of its text are the rows of its trim, which is
    a block of the raster (`Grid.exists_isRectangle_text`).
3.  The ends of lines are taken to the nearest cell of the grid, in the order of their coordinates
    (`Raster.cell_mono`): the factors of a canvas with positive sides are not negative.
-/

namespace Tromp

namespace Glyph

variable {a x : Char} {glyphs : List Char}

/-- The characters that rasters show: the empty one, and those that have arms. -/
def IsDrawn (x : Char) : Prop := x = blank ∨ arms x ≠ []

instance : Decidable (IsDrawn x) := inferInstanceAs (Decidable (_ ∨ _))

theorem IsDrawn.ne_newline (h : IsDrawn x) : x ≠ '\n' := by
  rintro rfl
  revert h
  decide

theorem isDrawn_of_direction? {d : Int × Int} (h : direction? x = some d) : IsDrawn x := by
  unfold direction? at h
  repeat' split at h
  all_goals first | cases h; done | subst x; decide

theorem isDrawn_junction (north east south west : Bool) :
    IsDrawn (junction north east south west) := by
  revert north east south west
  decide

/-- What is left when one character is drawn over another. -/
theorem IsDrawn.drawnOver (ha : IsDrawn a) : IsDrawn (drawnOver a x) := by
  unfold Glyph.drawnOver
  split
  · exact ha
  · decide

theorem IsDrawn.overlay (hx : IsDrawn x) (h : ∀ a ∈ glyphs, IsDrawn a) :
    IsDrawn (overlay x glyphs) := by
  induction glyphs generalizing x with
  | nil => exact hx
  | cons a glyphs ih =>
      exact ih (h a List.mem_cons_self).drawnOver fun b hb => h b (List.mem_cons_of_mem a hb)

end Glyph

namespace Grid

variable {g : Grid} {line : List Char}

/-- A text of rows of one length. -/
structure IsRectangle (rows cols : Nat) (text : String) : Prop where
  length_rows : (text.toList.splitOn '\n').length = rows
  length_row : ∀ row ∈ text.toList.splitOn '\n', row.length = cols

theorem length_of_mem_lines (h : line ∈ g.lines) : line.length = g.cols := by
  rw [lines_eq] at h
  obtain ⟨r, -, rfl⟩ := List.mem_map.mp h
  simp

theorem length_lines : g.lines.length = g.rows := by
  simp [lines_eq]

theorem exists_get?_of_mem_lines {x : Char} (h : line ∈ g.lines) (hx : x ∈ line) :
    ∃ i j, g.get? i j = some x := by
  rw [lines_eq] at h
  obtain ⟨r, hr, rfl⟩ := List.mem_map.mp h
  obtain ⟨c, hc, rfl⟩ := List.mem_map.mp hx
  have hinside : g.Inside r c := by
    have hr := List.mem_range.mp hr
    have hc := List.mem_range.mp hc
    simp only [Inside]
    omega
  obtain ⟨x, hx⟩ := Option.isSome_iff_exists.mp (get?_isSome_iff.mpr hinside)
  exact ⟨r, c, by rw [hx, Option.getD_some]⟩

/-- What a block shows the grid shows. -/
theorem Block.exists_get?_of_get? {b : Block g} {i j : Int} {x : Char}
    (h : b.toGrid.get? i j = some x) : ∃ i j, g.get? i j = some x := by
  rw [get?_toGrid] at h
  split at h
  next => exact ⟨_, _, h⟩
  next => cases h

/-- **The text of a grid is a rectangle** of at most as many rows and columns, if no cell shows a
line break.  An empty text has one empty row. -/
theorem exists_isRectangle_text (h : ∀ i j, g.get? i j ≠ some '\n') (hrows : 1 ≤ g.rows)
    (margin : Nat) : ∃ rows ≤ g.rows, ∃ cols ≤ g.cols, IsRectangle rows cols (g.text margin) := by
  have htext : (g.text margin).toList = ['\n'].intercalate (g.trim margin) := by
    simp [text, String.toList_intercalate]
  rcases g.trim_cases margin with ⟨-, htrim⟩ | ⟨_, window, -, -, htrim⟩
  · refine ⟨1, hrows, 0, Nat.zero_le _, ?_, ?_⟩ <;> simp [htext, htrim]
  · have htop := window.top_le
    have hbottom := window.bottom_lt
    have hright := window.right_lt
    have hlength : window.toGrid.lines.length = window.bottom + 1 - window.top := length_lines
    have hlines : window.toGrid.lines ≠ [] := by
      intro hnil
      rw [hnil, List.length_nil] at hlength
      omega
    have hsplit : (g.text margin).toList.splitOn '\n' = window.toGrid.lines := by
      rw [htext, htrim]
      refine List.splitOn_intercalate '\n' ?_ hlines
      intro line hline hnewline
      obtain ⟨_, _, hblock⟩ := exists_get?_of_mem_lines hline hnewline
      obtain ⟨i, j, hij⟩ := Block.exists_get?_of_get? hblock
      exact h i j hij
    refine ⟨window.toGrid.rows, ?_, window.toGrid.cols, ?_, ?_, ?_⟩
    · rw [Block.rows_toGrid]
      omega
    · rw [Block.cols_toGrid]
      omega
    · rw [hsplit, length_lines]
    · rw [hsplit]
      exact fun row => length_of_mem_lines

end Grid

namespace Raster

section Cells

variable {rows cols : Nat} {lines : List (Ends Int)} {i j : Int} {x : Char}

theorem rows_ofCells : (ofCells rows cols lines).rows = rows := rows_drawn

theorem cols_ofCells : (ofCells rows cols lines).cols = cols := cols_drawn

/-- A raster shows only characters that are drawn. -/
theorem isDrawn_of_get?_ofCells (h : (ofCells rows cols lines).get? i j = some x) :
    Glyph.IsDrawn x := by
  have hoverlay : Glyph.IsDrawn (Glyph.overlay Glyph.blank (glyphsAt lines (i, j))) := by
    refine Glyph.IsDrawn.overlay (.inl rfl) fun a ha => ?_
    obtain ⟨l, -, -, rfl⟩ := mem_glyphsAt.mp ha
    obtain ⟨d, hd⟩ := l.exists_direction?_glyph
    exact Glyph.isDrawn_of_direction? hd
  rw [ofCells_eq, Grid.get?_fillGaps] at h
  obtain ⟨y, hy, hfilled⟩ := Option.map_eq_some_iff.mp h
  have hresolved : Glyph.IsDrawn y := by
    rw [get?_resolved (Grid.inside_of_get? hy)] at hy
    obtain rfl := Option.some.inj hy
    split
    · exact Glyph.isDrawn_junction _ _ _ _
    · exact hoverlay
  split at hfilled
  next =>
      cases hbridge : (resolved rows cols lines).bridge? (maxGap lines) i j with
      | none =>
          rw [hbridge] at hfilled
          exact hfilled ▸ hresolved
      | some glyph =>
          obtain ⟨dr, dc, back, ahead, hb⟩ := Grid.bridged_of_bridge? hbridge
          rw [hbridge] at hfilled
          exact hfilled ▸ Glyph.isDrawn_of_direction? hb.direction
  next => exact hfilled ▸ hresolved

end Cells

/-! ### Columns and rows -/

section Size

variable {α : Type} [Scalar α]

theorem baseColumns_le (lines : Nat) : baseColumns lines ≤ 140 := by
  unfold baseColumns
  split
  · decide
  · split <;> decide

/-- A grid has at most as many columns as a complex drawing on a broad canvas. -/
theorem columns_le (width height : α) (lines : Nat) (terminal : Option Int) :
    columns width height lines terminal ≤ 175 := by
  have hbase := baseColumns_le lines
  have hwanted : (if 2.5 < width / height then baseColumns lines * 5 / 4
      else if width / height < 0.7 then baseColumns lines * 4 / 5
      else baseColumns lines) ≤ 175 := by
    split
    · omega
    · split <;> omega
  cases terminal with
  | none => exact hwanted
  | some n => exact (Nat.min_le_left _ _).trans hwanted

/-- A grid has at most as many columns as the terminal has room for. -/
theorem columns_le_terminal (width height : α) (lines : Nat) (n : Int) :
    (columns width height lines (some n) : Int) ≤ max (n - 4) 20 := by
  have hlimit : columns width height lines (some n) ≤ terminalLimit n := Nat.min_le_right _ _
  have hcast : (terminalLimit n : Int) = max (n - 4) 20 := by
    unfold terminalLimit
    omega
  omega

end Size

section Canvas

variable {width height x y factor : Rat} {limit : Int}

/-- A canvas with positive sides has a grid. -/
theorem size?_eq_ok (hw : 0 < width) (hh : 0 < height) (lines : Nat) (terminal : Option Int) :
    size? width height lines terminal =
      .ok (columns width height lines terminal,
        rows width height (columns width height lines terminal)) := by
  rw [size?, Scalar.quotient?_eq_ok (Scalar.isZero_rat_of_pos hh),
    Scalar.quotient?_eq_ok (Scalar.isZero_rat_of_pos hw)]
  rfl

/-- In exact arithmetic tall canvases are squeezed to four rows for each column, and one more. -/
theorem rows_le (width height : Rat) (cols : Nat) : rows width height cols ≤ 4 * cols + 1 := by
  simp only [rows]
  split
  next => simp [rowsPerColumn]
  next hfits =>
      have hle : requestedRows width height cols ≤ ((rowsPerColumn * cols : Nat) : Int) := by
        simpa [isSqueezed] using hfits
      have hceil : Scalar.ceil (requestedRows width height cols) ≤
          ((rowsPerColumn * cols : Nat) : Int) :=
        Rat.ceil_le_iff.mpr hle
      simp only [rowsPerColumn] at hceil
      omega

/-- The factors from a canvas with positive sides to a grid are not negative. -/
theorem factors_nonneg (cols : Nat) (hw : 0 < width) (hh : 0 < height) (hlimit : 0 < limit) :
    0 ≤ (factors width height cols limit).1 ∧ 0 ≤ (factors width height cols limit).2 := by
  have hcols : (0 : Rat) ≤ Scalar.ofNat cols / width := by
    rw [Scalar.ofNat_rat]
    positivity
  have hrows : (0 : Rat) ≤ ((limit - 1 : Int) : Rat) / height := by
    have hcast : (0 : Rat) ≤ ((limit - 1 : Int) : Rat) := by
      exact_mod_cast (by omega : 0 ≤ limit - 1)
    positivity
  refine ⟨hcols, ?_⟩
  simp only [factors, Scalar.least_rat]
  exact le_min (by positivity) hrows

/-- Cells come in the order of coordinates. -/
theorem cell_mono (hfactor : 0 ≤ factor) (h : x ≤ y) (limit : Int) :
    cell x factor limit ≤ cell y factor limit := by
  have hscaled : x * factor + 0.5 ≤ y * factor + 0.5 := by
    gcongr
  have hfloor : Scalar.floor (x * factor + 0.5) ≤ Scalar.floor (y * factor + 0.5) :=
    Rat.floor_monotone hscaled
  simp only [cell]
  omega

/-- The limits of the raster of lines on a canvas, of its text, and of the cells that the ends of
lines are taken to. -/
structure IsLimited (lines : List (Ends Rat)) (width height : Rat) (terminal : Option Int)
    (margin cols : Nat) (rows : Int) : Prop where
  size_eq : size? width height lines.length terminal = .ok (cols, rows)
  grid_eq : ofLines lines width height terminal =
    ofCells rows.toNat cols (lines.map fun l =>
      cellsOf l (factors width height cols rows) cols rows)
  rows_eq : ((ofLines lines width height terminal).rows : Int) = rows
  cols_eq : (ofLines lines width height terminal).cols = cols
  /-- The text has rows of one length, within the columns of the largest drawings and of the
  terminal, and no more than four for each column, and one. -/
  text : ∃ textRows textCols,
    Grid.IsRectangle textRows textCols ((ofLines lines width height terminal).text margin) ∧
      textCols ≤ 175 ∧ (∀ n, terminal = some n → (textCols : Int) ≤ max (n - 4) 20) ∧
      textRows ≤ 4 * cols + 1
  /-- All ends of lines are taken to the grid, from wherever they are on the canvas or off it. -/
  ends : ∀ l, (cellsOf l (factors width height cols rows) cols rows).OnGrid rows cols
  cols_mono : ∀ {x y}, x ≤ y →
    cell x (factors width height cols rows).1 cols ≤ cell y (factors width height cols rows).1 cols
  rows_mono : ∀ {x y}, x ≤ y →
    cell x (factors width height cols rows).2 rows ≤ cell y (factors width height cols rows).2 rows

/-- **A raster keeps its limits**, in exact arithmetic and on any canvas with positive sides. -/
theorem ofLines_limits (lines : List (Ends Rat)) (hw : 0 < width) (hh : 0 < height)
    (terminal : Option Int) (margin : Nat) :
    ∃ cols rows, IsLimited lines width height terminal margin cols rows := by
  let g := ofLines lines width height terminal
  obtain ⟨cols, hcols⟩ : ∃ cols, columns width height lines.length terminal = cols := ⟨_, rfl⟩
  have hpos : 0 < cols := hcols ▸ columns_pos width height lines.length terminal
  have hrowsPos := rows_pos hw hh cols
  have hrowsLe := rows_le width height cols
  have hfactors := factors_nonneg cols hw hh hrowsPos
  have hgrid : g = ofCells (rows width height cols).toNat cols (lines.map fun l =>
      cellsOf l (factors width height cols (rows width height cols)) cols
        (rows width height cols)) := by
    subst hcols
    rfl
  have hgridCols : g.cols = cols := by
    rw [hgrid, cols_ofCells]
  have hgridRows : (g.rows : Int) = rows width height cols := by
    rw [hgrid, rows_ofCells, Int.toNat_of_nonneg hrowsPos.le]
  refine ⟨cols, rows width height cols, hcols ▸ size?_eq_ok hw hh lines.length terminal, hgrid,
    hgridRows, hgridCols, ?text, fun l => onGrid_cellsOf l _ hpos hrowsPos,
    fun hxy => cell_mono hfactors.1 hxy _, fun hxy => cell_mono hfactors.2 hxy _⟩
  case text =>
    have hdrawn : ∀ i j, g.get? i j ≠ some '\n' := fun i j hij =>
      (isDrawn_of_get?_ofCells hij).ne_newline rfl
    obtain ⟨textRows, hheight, textCols, hwidth, htext⟩ :=
      Grid.exists_isRectangle_text hdrawn (by omega) margin
    refine ⟨textRows, textCols, htext, ?_, ?_, by omega⟩
    · exact hwidth.trans (hgridCols ▸ hcols ▸ columns_le width height lines.length terminal)
    · rintro n rfl
      have hlimit := columns_le_terminal width height lines.length n
      omega

/-- A canvas a thousand times as high as it is broad, with a line that leads far off it, on a
terminal that has no width. -/
theorem ofLines_limits_tall : (0 : Rat) < 1 ∧ (0 : Rat) < 1000 ∧
    IsLimited [⟨-1000000, 3, 1/2, 7000000⟩] 1 1000 (some (-5)) 1 20 81 := by
  have hw : (0 : Rat) < 1 := by norm_num
  have hh : (0 : Rat) < 1000 := by norm_num
  obtain ⟨cols, rows, h⟩ := ofLines_limits [⟨-1000000, 3, 1/2, 7000000⟩] hw hh (some (-5)) 1
  have hcols : columns (1 : Rat) 1000 1 (some (-5)) = 20 := by decide +kernel
  have hrows : Raster.rows (1 : Rat) 1000 20 = 81 := by decide +kernel
  have hok := (size?_eq_ok hw hh 1 (some (-5))).symm.trans h.size_eq
  rw [hcols, hrows] at hok
  obtain ⟨rfl, rfl⟩ := Prod.mk.inj (Except.ok.inj hok)
  exact ⟨hw, hh, h⟩

end Canvas

end Raster

end Tromp
