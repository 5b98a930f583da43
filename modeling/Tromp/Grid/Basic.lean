import Tromp.Grid.Glyph

/-!
# Grids of characters

A grid has rows and columns of characters, and both its dimensions are part of it.  Positions are
pairs of integers, row first, and a position off the grid holds nothing: drawing there does nothing.
-/

namespace Tromp

/-- A rectangle of characters. -/
structure Grid where
  rows : Nat
  cols : Nat
  cells : Vector (Vector Char cols) rows

namespace Grid

/-- The grid of a function of rows and columns. -/
def ofFn (rows cols : Nat) (f : Nat → Nat → Char) : Grid :=
  ⟨rows, cols, .ofFn fun r => .ofFn fun c => f r c⟩

/-- The grid of empty cells. -/
def blank (rows cols : Nat) : Grid := ⟨rows, cols, .replicate rows (.replicate cols Glyph.blank)⟩

/-- The grid of some rows of text; short rows are continued with empty cells. -/
def ofLines (cols : Nat) (lines : List (List Char)) : Grid :=
  ofFn lines.length cols fun r c => ((lines[r]?.getD [])[c]?).getD Glyph.blank

/-- Whether a position is on the grid. -/
def Inside (g : Grid) (row col : Int) : Prop := 0 ≤ row ∧ row < g.rows ∧ 0 ≤ col ∧ col < g.cols

instance (g : Grid) (row col : Int) : Decidable (g.Inside row col) :=
  inferInstanceAs (Decidable (_ ∧ _))

/-- The character at a position, if it is on the grid. -/
def get? (g : Grid) (row col : Int) : Option Char :=
  if h : g.Inside row col then
    have hr : row.toNat < g.rows := by have := h.1; have := h.2.1; omega
    have hc : col.toNat < g.cols := by have := h.2.2.1; have := h.2.2.2; omega
    some g.cells[row.toNat][col.toNat]
  else none

/-- Draws a character at a position. -/
def put (g : Grid) (row col : Int) (glyph : Char) : Grid :=
  if h : g.Inside row col then
    have hr : row.toNat < g.rows := by have := h.1; have := h.2.1; omega
    have hc : col.toNat < g.cols := by have := h.2.2.1; have := h.2.2.2; omega
    let old := g.cells[row.toNat]
    { g with cells :=
        g.cells.set row.toNat (old.set col.toNat (Glyph.drawnOver glyph old[col.toNat])) }
  else g

/-- Draws a character at several positions. -/
def putAll (g : Grid) (glyph : Char) (positions : List (Int × Int)) : Grid :=
  positions.foldl (fun g p => g.put p.1 p.2 glyph) g

/-- The grid with each cell changed by a function of its position and its character. -/
def mapCells (g : Grid) (f : Nat → Nat → Char → Char) : Grid :=
  ⟨g.rows, g.cols, g.cells.mapFinIdx fun r line _ => line.mapFinIdx fun c x _ => f r c x⟩

/-- The rows of a grid as texts. -/
def lines (g : Grid) : List (List Char) := (g.cells.map Vector.toList).toList

end Grid

end Tromp
