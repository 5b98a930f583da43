import Mathlib.Data.List.Basic
import Tromp.Grid.Trim
import Tromp.Proofs.Grid.Cells

/-!
# Trimming keeps a tight block

What is drawn on a grid lies in a least block of cells, its *content*.  A trimmed grid is the block
that frames the content with the margin, cut off at the edges of the grid
(`Grid.Block.IsContent.trim_eq_lines`), so nothing that is drawn is lost and each side has exactly
the margin unless it is an edge.

1.  The extent of a property of numbers is its first and its last number
    (`Grid.extent?_eq_some_iff`), and the rows and columns where something is shown have the extents
    of the content.
2.  The rows of a grid are read off its cells (`Grid.lines_eq`), and a part of them, cut to a part
    of each, is the text of a block.
3.  Within its frame the content has its margins, or the edges that cut them, all around.  So the
    frame of the content is the whole of the trimmed grid, and trimming again leaves it as it is.
-/

namespace Tromp

namespace Grid

variable {g : Grid} {i j : Int} {margin : Nat}

/-- Whether something is shown at a position. -/
def Shown (g : Grid) (i j : Int) : Prop := ∃ x, g.get? i j = some x ∧ x ≠ Glyph.blank

/-- Whether nothing is shown on a grid. -/
def IsEmpty (g : Grid) : Prop := ∀ i j, ¬ g.Shown i j

theorem Shown.inside (h : g.Shown i j) : g.Inside i j := by
  obtain ⟨x, hx, -⟩ := h
  exact inside_of_get? hx

/-- Something is shown on the grid only. -/
theorem Shown.exists_cell (h : g.Shown i j) :
    ∃ r c : Nat, i = r ∧ j = c ∧ r < g.rows ∧ c < g.cols := by
  obtain ⟨hi, hrow, hj, hcol⟩ := h.inside
  exact ⟨i.toNat, j.toNat, by omega, by omega, by omega, by omega⟩

theorem shown_iff {r c : Nat} (hr : r < g.rows) (hc : c < g.cols) :
    g.Shown r c ↔ g.cells[r][c] ≠ Glyph.blank := by
  simp [Shown, get?, Inside, hr, hc]

/-- The rows of a grid by its cells. -/
theorem lines_eq (g : Grid) : g.lines =
    (List.range g.rows).map fun (r : Nat) => (List.range g.cols).map fun (c : Nat) =>
      (g.get? r c).getD Glyph.blank := by
  apply List.ext_getElem
  · simp [lines]
  · intro r hr _
    have hr : r < g.rows := by simpa [lines] using hr
    apply List.ext_getElem
    · simp [lines]
    · intro c hc _
      have hc : c < g.cols := by simpa [lines] using hc
      simp [lines, get?, Inside, hr, hc]

/-! ### Blocks -/

/-- A rectangle of cells of a grid, by its first and last row and column. -/
structure Block (g : Grid) where
  top : Nat
  bottom : Nat
  left : Nat
  right : Nat
  top_le : top ≤ bottom
  bottom_lt : bottom < g.rows
  left_le : left ≤ right
  right_lt : right < g.cols

namespace Block

/-- Whether a position of the grid is in a block. -/
def Contains (b : Block g) (i j : Int) : Prop :=
  b.top ≤ i ∧ i ≤ b.bottom ∧ b.left ≤ j ∧ j ≤ b.right

/-- A block as a grid of its own. -/
def toGrid (b : Block g) : Grid :=
  ofFn (b.bottom + 1 - b.top) (b.right + 1 - b.left) fun r c =>
    (g.get? (b.top + r) (b.left + c)).getD Glyph.blank

@[simp] theorem rows_toGrid (b : Block g) : b.toGrid.rows = b.bottom + 1 - b.top := rfl

@[simp] theorem cols_toGrid (b : Block g) : b.toGrid.cols = b.right + 1 - b.left := rfl

/-- The cells of a block are those of the grid, counted from the corner of the block. -/
theorem get?_toGrid (b : Block g) (i j : Int) : b.toGrid.get? i j =
    if 0 ≤ i ∧ i ≤ b.bottom - b.top ∧ 0 ≤ j ∧ j ≤ b.right - b.left
      then g.get? (b.top + i) (b.left + j) else none := by
  have htop := b.top_le
  have hbottom := b.bottom_lt
  have hleft := b.left_le
  have hright := b.right_lt
  split
  next h =>
      obtain ⟨hi, hi', hj, hj'⟩ := h
      have hinside : b.toGrid.Inside i j := by
        simp only [Inside, rows_toGrid, cols_toGrid]
        omega
      have hg : g.Inside (b.top + i) (b.left + j) := by
        simp only [Inside]
        omega
      obtain ⟨x, hx⟩ := Option.isSome_iff_exists.mp (get?_isSome_iff.mpr hg)
      rw [get?, dif_pos hinside]
      simp [toGrid, ofFn, Int.toNat_of_nonneg hi, Int.toNat_of_nonneg hj, hx]
  next h =>
      refine get?_of_not_inside ?_
      simp only [Inside, rows_toGrid, cols_toGrid]
      omega

theorem shown_toGrid_iff (b : Block g) (i j : Int) : b.toGrid.Shown i j ↔
    b.Contains (b.top + i) (b.left + j) ∧ g.Shown (b.top + i) (b.left + j) := by
  simp only [Shown, get?_toGrid, Contains]
  split
  next h => exact (and_iff_right (by omega)).symm
  next h =>
      constructor
      · rintro ⟨x, hx, -⟩
        cases hx
      · rintro ⟨hcontains, -⟩
        omega

/-- A block from edge to edge is the whole grid. -/
theorem toGrid_eq_self (b : Block g) (htop : b.top = 0) (hbottom : b.bottom + 1 = g.rows)
    (hleft : b.left = 0) (hright : b.right + 1 = g.cols) : b.toGrid = g := by
  refine ext_get? ?_ ?_ ?_
  · rw [rows_toGrid]
    omega
  · rw [cols_toGrid]
    omega
  · intro i j
    rw [get?_toGrid, htop, hleft]
    split
    next => simp
    next h =>
        refine (get?_of_not_inside ?_).symm
        simp only [Inside]
        omega

/-- The least block around all that is shown on a grid: something is shown in its first and its last
row and column. -/
structure IsContent (b : Block g) : Prop where
  covers : ∀ i j, g.Shown i j → b.Contains i j
  top_shown : ∃ j, g.Shown b.top j
  bottom_shown : ∃ j, g.Shown b.bottom j
  left_shown : ∃ i, g.Shown i b.left
  right_shown : ∃ i, g.Shown i b.right

/-- A block with a margin around it, as far as the grid goes. -/
def frame (b : Block g) (margin : Nat) : Block g where
  top := b.top - margin
  bottom := min (g.rows - 1) (b.bottom + margin)
  left := b.left - margin
  right := min (g.cols - 1) (b.right + margin)
  top_le := by have := b.top_le; have := b.bottom_lt; omega
  bottom_lt := by have := b.bottom_lt; omega
  left_le := by have := b.left_le; have := b.right_lt; omega
  right_lt := by have := b.right_lt; omega

/-- A block frames another with a margin: on each side the margin lies between them, or there is
less and the side is the edge of the grid. -/
structure Frames (margin : Nat) (content window : Block g) : Prop where
  top : window.top + margin = content.top ∨ window.top = 0 ∧ content.top < margin
  bottom : window.bottom = content.bottom + margin ∨
    window.bottom + 1 = g.rows ∧ window.bottom < content.bottom + margin
  left : window.left + margin = content.left ∨ window.left = 0 ∧ content.left < margin
  right : window.right = content.right + margin ∨
    window.right + 1 = g.cols ∧ window.right < content.right + margin

theorem frames_frame (b : Block g) (margin : Nat) : Frames margin b (b.frame margin) := by
  have hbottom := b.bottom_lt
  have hright := b.right_lt
  constructor <;> simp only [frame] <;> omega

/-- A frame contains what it frames. -/
theorem Frames.contains {content window : Block g} (h : Frames margin content window)
    (hcell : content.Contains i j) : window.Contains i j := by
  obtain ⟨htop, hbottom, hleft, hright⟩ := h
  have hrows := content.bottom_lt
  have hcols := content.right_lt
  simp only [Contains] at hcell ⊢
  omega

end Block

/-! ### Extents -/

section Extent

variable {n a b : Nat} {p : Nat → Bool}

theorem extent?_eq_none_iff : extent? n p = none ↔ ∀ k < n, p k = false := by
  have hnil : extent? n p = none ↔ (List.range n).filter p = [] := by
    cases hfound : (List.range n).filter p with
    | nil => simp [extent?, hfound]
    | cons c rest => simp [extent?, hfound, List.getLast?_cons]
  rw [hnil]
  simp [List.filter_eq_nil_iff]

/-- A property that a number has has an extent. -/
theorem exists_extent? {k : Nat} (hk : k < n) (h : p k = true) :
    ∃ a b, extent? n p = some (a, b) := by
  cases hextent : extent? n p with
  | none =>
      rw [extent?_eq_none_iff.mp hextent k hk] at h
      cases h
  | some ends => exact ⟨ends.1, ends.2, rfl⟩

/-- The ends of an extent have the property, and all numbers that have it lie between them. -/
theorem ends_of_extent? (h : extent? n p = some (a, b)) :
    (a < n ∧ p a = true) ∧ (b < n ∧ p b = true) ∧ ∀ k < n, p k = true → a ≤ k ∧ k ≤ b := by
  have hsorted : ((List.range n).filter p).Pairwise (· < ·) :=
    List.pairwise_lt_range.filter p
  have hmem : ∀ k, k ∈ (List.range n).filter p ↔ k < n ∧ p k = true := by simp
  obtain ⟨first, hfirst, hends⟩ := Option.bind_eq_some_iff.mp h
  obtain ⟨last, hlast, hends⟩ := Option.bind_eq_some_iff.mp hends
  obtain ⟨rfl, rfl⟩ := Prod.mk.inj (Option.some.inj hends)
  obtain ⟨rest, hrest⟩ := List.head?_eq_some_iff.mp hfirst
  obtain ⟨init, hinit⟩ := List.getLast?_eq_some_iff.mp hlast
  have hleast : ∀ k ∈ (List.range n).filter p, first ≤ k := by
    intro k hk
    rw [hrest] at hk hsorted
    rcases List.mem_cons.mp hk with rfl | hk
    · exact Nat.le_refl _
    · exact Nat.le_of_lt ((List.pairwise_cons.mp hsorted).1 k hk)
  have hgreatest : ∀ k ∈ (List.range n).filter p, k ≤ last := by
    intro k hk
    rw [hinit] at hk hsorted
    obtain ⟨-, -, hbefore⟩ := List.pairwise_append.mp hsorted
    rcases List.mem_append.mp hk with hk | hk
    · exact Nat.le_of_lt (hbefore k hk last (List.mem_singleton_self last))
    · exact Nat.le_of_eq (List.mem_singleton.mp hk)
  refine ⟨(hmem first).mp (hrest ▸ List.mem_cons_self), (hmem last).mp ?_, ?_⟩
  · rw [hinit]
    exact List.mem_append_right init (List.mem_singleton_self last)
  · intro k hk hpk
    have hfound := (hmem k).mpr ⟨hk, hpk⟩
    exact ⟨hleast k hfound, hgreatest k hfound⟩

/-- The extent of a property that numbers have is from the least of them to the greatest. -/
theorem extent?_eq_some_iff : extent? n p = some (a, b) ↔
    (a < n ∧ p a = true) ∧ (b < n ∧ p b = true) ∧ ∀ k < n, p k = true → a ≤ k ∧ k ≤ b := by
  refine ⟨ends_of_extent?, ?_⟩
  rintro ⟨⟨ha, hpa⟩, ⟨hb, hpb⟩, hall⟩
  obtain ⟨c, d, hextent⟩ := exists_extent? ha hpa
  obtain ⟨⟨hc, hpc⟩, ⟨hd, hpd⟩, hall'⟩ := ends_of_extent? hextent
  have hac := hall c hc hpc
  have hdb := hall d hd hpd
  have hca := hall' a ha hpa
  have hbd := hall' b hb hpb
  rw [hextent, Option.some.injEq, Prod.mk.injEq]
  omega

end Extent

/-! ### The content of a grid -/

/-- A row counts for the extent of the rows exactly if something is shown in it. -/
theorem row_shown_iff {r : Nat} (hr : r < g.rows) :
    ((g.cells.map fun line => isOccupied line.toList)[r]?.getD false) = true ↔
      ∃ j, g.Shown r j := by
  have hrow : ((g.cells.map fun line => isOccupied line.toList)[r]?.getD false) = true ↔
      ∃ c, ∃ hc : c < g.cols, g.cells[r][c] ≠ Glyph.blank := by
    simp [hr, isOccupied, Vector.any_eq_true]
  rw [hrow]
  constructor
  · rintro ⟨c, hc, hne⟩
    exact ⟨c, (shown_iff hr hc).mpr hne⟩
  · rintro ⟨j, hj⟩
    obtain ⟨_, c, -, rfl, -, hc⟩ := hj.exists_cell
    exact ⟨c, hc, (shown_iff hr hc).mp hj⟩

/-- A column counts for the extent of the columns exactly if something is shown in it. -/
theorem col_shown_iff {c : Nat} (hc : c < g.cols) :
    (g.cells.any fun row => (row[c]?.getD Glyph.blank) != Glyph.blank) = true ↔
      ∃ i, g.Shown i c := by
  have hcol : (g.cells.any fun row => (row[c]?.getD Glyph.blank) != Glyph.blank) = true ↔
      ∃ r, ∃ hr : r < g.rows, g.cells[r][c] ≠ Glyph.blank := by
    simp [hc, Vector.any_eq_true]
  rw [hcol]
  constructor
  · rintro ⟨r, hr, hne⟩
    exact ⟨r, (shown_iff hr hc).mpr hne⟩
  · rintro ⟨i, hi⟩
    obtain ⟨r, _, rfl, -, hr, -⟩ := hi.exists_cell
    exact ⟨r, hr, (shown_iff hr hc).mp hi⟩

variable {b : Block g}

theorem Block.IsContent.rowExtent?_eq (h : b.IsContent) :
    g.rowExtent? = some (b.top, b.bottom) := by
  have htop := Nat.lt_of_le_of_lt b.top_le b.bottom_lt
  refine extent?_eq_some_iff.mpr ⟨⟨htop, (row_shown_iff htop).mpr h.top_shown⟩,
    ⟨b.bottom_lt, (row_shown_iff b.bottom_lt).mpr h.bottom_shown⟩, ?_⟩
  intro r hr hshown
  obtain ⟨j, hj⟩ := (row_shown_iff hr).mp hshown
  obtain ⟨hlow, hhigh, -⟩ := h.covers r j hj
  omega

theorem Block.IsContent.colExtent?_eq (h : b.IsContent) :
    g.colExtent? = some (b.left, b.right) := by
  have hleft := Nat.lt_of_le_of_lt b.left_le b.right_lt
  refine extent?_eq_some_iff.mpr ⟨⟨hleft, (col_shown_iff hleft).mpr h.left_shown⟩,
    ⟨b.right_lt, (col_shown_iff b.right_lt).mpr h.right_shown⟩, ?_⟩
  intro c hc hshown
  obtain ⟨i, hi⟩ := (col_shown_iff hc).mp hshown
  obtain ⟨-, -, hlow, hhigh⟩ := h.covers i c hi
  omega

/-- **A grid on which something is shown has a content.** -/
theorem exists_isContent (h : g.Shown i j) : ∃ b : Block g, b.IsContent := by
  obtain ⟨r, c, rfl, rfl, hr, hc⟩ := h.exists_cell
  obtain ⟨top, bottom, hrows⟩ : ∃ top bottom, g.rowExtent? = some (top, bottom) :=
    exists_extent? hr ((row_shown_iff hr).mpr ⟨c, h⟩)
  obtain ⟨left, right, hcols⟩ : ∃ left right, g.colExtent? = some (left, right) :=
    exists_extent? hc ((col_shown_iff hc).mpr ⟨r, h⟩)
  obtain ⟨⟨htop, htop'⟩, ⟨hbottom, hbottom'⟩, hrow⟩ := extent?_eq_some_iff.mp hrows
  obtain ⟨⟨hleft, hleft'⟩, ⟨hright, hright'⟩, hcol⟩ := extent?_eq_some_iff.mp hcols
  have htopBottom := hrow top htop htop'
  have hleftRight := hcol left hleft hleft'
  refine ⟨⟨top, bottom, left, right, htopBottom.2, hbottom, hleftRight.2, hright⟩, ?_,
    (row_shown_iff htop).mp htop', (row_shown_iff hbottom).mp hbottom',
    (col_shown_iff hleft).mp hleft', (col_shown_iff hright).mp hright'⟩
  intro _ _ hshown
  obtain ⟨k, l, rfl, rfl, hk, hl⟩ := hshown.exists_cell
  have hkrow := hrow k hk ((row_shown_iff hk).mpr ⟨l, hshown⟩)
  have hlcol := hcol l hl ((col_shown_iff hl).mpr ⟨k, hshown⟩)
  simp only [Block.Contains]
  omega

/-- On an empty grid there is no extent of rows. -/
theorem IsEmpty.rowExtent?_eq (h : g.IsEmpty) : g.rowExtent? = none := by
  refine extent?_eq_none_iff.mpr fun r hr => Bool.eq_false_iff.mpr fun hshown => ?_
  obtain ⟨j, hj⟩ := (row_shown_iff hr).mp hshown
  exact h r j hj

/-! ### The trimmed grid -/

/-- A part of the values of a function on the first numbers. -/
theorem drop_take_map_range {α : Type} (f : Nat → α) {n stop : Nat} (start : Nat)
    (h : stop ≤ n) : (((List.range n).map f).take stop).drop start =
      (List.range (stop - start)).map fun k => f (start + k) := by
  apply List.ext_getElem
  · simp
    omega
  · intro k _ _
    simp

/-- **A trimmed grid is the frame of its content**, read as a text. -/
theorem Block.IsContent.trim_eq_lines (h : b.IsContent) (margin : Nat) :
    g.trim margin = (b.frame margin).toGrid.lines := by
  have htop := b.top_le
  have hbottom := b.bottom_lt
  have hleft := b.left_le
  have hright := b.right_lt
  have hstart : ∀ n : Nat, max 0 ((n : Int) - margin) = ((n - margin : Nat) : Int) := by omega
  have hstop : ∀ m n : Nat, m < n → min ((n : Int) - 1) (m + margin) + 1 =
      ((min (n - 1) (m + margin) + 1 : Nat) : Int) := by omega
  simp only [trim, h.rowExtent?_eq, h.colExtent?_eq, hstart, hstop _ _ hbottom, hstop _ _ hright,
    Int.toNat_natCast]
  rw [lines_eq g, drop_take_map_range _ _ (by omega), List.map_map, lines_eq (toGrid _)]
  refine List.map_congr_left fun r hr => ?_
  rw [Function.comp_apply, slice_ofNat, drop_take_map_range _ _ (by omega)]
  refine List.map_congr_left fun c hc => ?_
  have hr := List.mem_range.mp hr
  have hc := List.mem_range.mp hc
  rw [get?_toGrid, if_pos (by simp only [frame]; omega), Int.natCast_add, Int.natCast_add]
  rfl

/-- The content of a grid is the content of its frame, too. -/
theorem Block.IsContent.exists_toGrid {w : Block g} (h : b.IsContent) (hw : Frames margin b w) :
    ∃ inner : Block w.toGrid, inner.IsContent ∧ w.top + inner.top = b.top ∧
      w.top + inner.bottom = b.bottom ∧ w.left + inner.left = b.left ∧
      w.left + inner.right = b.right := by
  obtain ⟨htop, hbottom, hleft, hright⟩ := hw
  have hrows := b.top_le
  have hrows' := b.bottom_lt
  have hcols := b.left_le
  have hcols' := b.right_lt
  -- What is shown in the frame is what is shown on the grid, seen from the corner of the frame.
  have hback : ∀ m n : Int, m + (n - m) = n := by omega
  have hshown : ∀ i j, g.Shown i j → w.toGrid.Shown (i - w.top) (j - w.left) := by
    intro i j hij
    obtain ⟨hrow, hrow', hcol, hcol'⟩ := h.covers i j hij
    rw [shown_toGrid_iff, Contains, hback, hback]
    exact ⟨by omega, hij⟩
  have hcast : ∀ {m n : Nat}, n ≤ m → ((m - n : Nat) : Int) = m - n := Int.natCast_sub
  refine ⟨⟨b.top - w.top, b.bottom - w.top, b.left - w.left, b.right - w.left, by omega,
    by rw [rows_toGrid]; omega, by omega, by rw [cols_toGrid]; omega⟩,
    ⟨?covers, ?top, ?bottom, ?left, ?right⟩, ?_⟩
  case covers =>
    intro i j hij
    obtain ⟨hrow, hrow', hcol, hcol'⟩ := h.covers _ _ ((shown_toGrid_iff w i j).mp hij).2
    simp only [Contains]
    omega
  case top =>
    obtain ⟨j, hj⟩ := h.top_shown
    rw [hcast (by omega)]
    exact ⟨_, hshown _ _ hj⟩
  case bottom =>
    obtain ⟨j, hj⟩ := h.bottom_shown
    rw [hcast (by omega)]
    exact ⟨_, hshown _ _ hj⟩
  case left =>
    obtain ⟨i, hi⟩ := h.left_shown
    rw [hcast (by omega)]
    exact ⟨_, hshown _ _ hi⟩
  case right =>
    obtain ⟨i, hi⟩ := h.right_shown
    rw [hcast (by omega)]
    exact ⟨_, hshown _ _ hi⟩
  · dsimp only
    omega

/-- **Trimming a trimmed grid changes nothing**: the frame of its content is the whole grid. -/
theorem Block.IsContent.trim_toGrid {w : Block g} (h : b.IsContent) (hw : Frames margin b w) :
    w.toGrid.trim margin = w.toGrid.lines := by
  obtain ⟨inner, hinner, htop, hbottom, hleft, hright⟩ := h.exists_toGrid hw
  obtain ⟨hwtop, hwbottom, hwleft, hwright⟩ := hw
  have hrows := w.bottom_lt
  have hcols := w.right_lt
  have hrows' := b.bottom_lt
  have hcols' := b.right_lt
  rw [hinner.trim_eq_lines, Block.toGrid_eq_self]
  all_goals
    simp only [frame, rows_toGrid, cols_toGrid]
    omega

/-- A grid is empty and so is its trim, or it has a content and the trim is the block around it. -/
theorem trim_cases (g : Grid) (margin : Nat) :
    (g.IsEmpty ∧ g.trim margin = []) ∨
      ∃ content window : Block g, content.IsContent ∧ Block.Frames margin content window ∧
        g.trim margin = window.toGrid.lines := by
  by_cases hempty : g.IsEmpty
  · exact .inl ⟨hempty, by simp only [trim, hempty.rowExtent?_eq]⟩
  · obtain ⟨i, j, hshown⟩ : ∃ i j, g.Shown i j := by
      simpa [IsEmpty] using hempty
    obtain ⟨content, hcontent⟩ := exists_isContent hshown
    exact .inr ⟨content, content.frame margin, hcontent, content.frames_frame margin,
      hcontent.trim_eq_lines margin⟩

theorem Block.IsContent.not_isEmpty (h : b.IsContent) : ¬ g.IsEmpty := by
  obtain ⟨j, hj⟩ := h.top_shown
  exact fun hempty => hempty _ _ hj

/-- **Trimming keeps a tight block.**  A grid has an empty trim exactly if nothing is shown on it.
Otherwise its trim is the text of a block of the grid with everything that is shown in it.  On each
side the block has exactly the margin outside the content, or less where the side is the edge of the
grid; and as a grid of its own the block is its own trim. -/
theorem trim_tight (g : Grid) (margin : Nat) :
    (g.trim margin = [] ↔ g.IsEmpty) ∧
      (¬ g.IsEmpty → ∃ content window : Block g, content.IsContent ∧
        Block.Frames margin content window ∧ (∀ i j, g.Shown i j → window.Contains i j) ∧
        g.trim margin = window.toGrid.lines ∧
        window.toGrid.trim margin = window.toGrid.lines) := by
  rcases g.trim_cases margin with ⟨hempty, htrim⟩ | ⟨content, window, hcontent, hframes, htrim⟩
  · exact ⟨iff_of_true htrim hempty, fun hne => absurd hempty hne⟩
  · refine ⟨iff_of_false ?_ hcontent.not_isEmpty, fun _ => ⟨content, window, hcontent, hframes,
      fun i j hij => hframes.contains (hcontent.covers i j hij), htrim,
      hcontent.trim_toGrid hframes⟩⟩
    intro hnil
    have hlength := congrArg List.length (htrim.symm.trans hnil)
    have hle := window.top_le
    simp only [lines_eq, Block.rows_toGrid, List.length_map, List.length_range, List.length_nil]
      at hlength
    omega

/-- A corner at the lower edge of a grid: the margin is cut off below it. -/
theorem trim_tight_edge :
    let g := ofLines 5 ["     ".toList, "     ".toList, "  ┌─ ".toList, "  │  ".toList]
    ¬ g.IsEmpty ∧ ∃ content window : Block g, content.IsContent ∧
      Block.Frames 1 content window ∧ window.bottom + 1 = g.rows ∧
      g.trim 1 = window.toGrid.lines ∧ window.toGrid.trim 1 = window.toGrid.lines := by
  intro g
  have hcorner : g.Shown 3 2 := ⟨'│', by decide, by decide⟩
  have hempty : ¬ g.IsEmpty := fun hempty => hempty 3 2 hcorner
  obtain ⟨content, window, hcontent, hframes, -, htrim, hagain⟩ := (trim_tight g 1).2 hempty
  refine ⟨hempty, content, window, hcontent, hframes, ?_, htrim, hagain⟩
  obtain ⟨-, hlow, -⟩ := hcontent.covers 3 2 hcorner
  have hbottom := hframes.bottom
  have hrows : g.rows = 4 := rfl
  have hcontentRows := content.bottom_lt
  have hwindowRows := window.bottom_lt
  omega

end Grid

end Tromp
