import Tromp.Grid.Basic

/-!
# Straight lines on a grid

A line between two cells is drawn with one character.  Along a row or a column it takes every cell
between its ends.  Otherwise it advances by one cell along its longer side at every step, and along
the shorter one whenever that keeps it nearest to the ideal line; the character shows whether the
line is steep, flat or slanted.
-/

namespace Tromp.Grid

/-- The sign of the way from one integer to another; backwards when they are the same. -/
def heading (a b : Int) : Int := if a < b then 1 else -1

/-- The character of a line between two cells. -/
def lineGlyph (c1 r1 c2 r2 : Int) : Char :=
  let dx := (c2 - c1).natAbs
  let dy := (r2 - r1).natAbs
  if r1 = r2 then Glyph.horizontal
  else if c1 = c2 then Glyph.vertical
  else if 2 * dx < dy then Glyph.vertical
  else if 2 * dy < dx then Glyph.horizontal
  else if 0 < heading c1 c2 * heading r1 r2 then Glyph.falling
  else Glyph.rising

/-- A cell on the way along a line, and the error there: how far the line has fallen behind along
the columns, less how far along the rows. -/
structure Pen where
  col : Int
  row : Int
  error : Int
deriving DecidableEq, Repr

/-- The next cell along a line with extents `dx` and `dy` and headings `sx` and `sy`. -/
def Pen.advance (dx dy sx sy : Int) (p : Pen) : Pen :=
  let across := -dy < 2 * p.error
  let down := 2 * p.error < dx
  { col := if across then p.col + sx else p.col
    row := if down then p.row + sy else p.row
    error := p.error - (if across then dy else 0) + (if down then dx else 0) }

/-- The cells of a slanted line from a pen on, `steps` steps far. -/
def slantFrom (dx dy sx sy : Int) : Nat → Pen → List (Int × Int)
  | 0, p => [(p.row, p.col)]
  | steps + 1, p => (p.row, p.col) :: slantFrom dx dy sx sy steps (p.advance dx dy sx sy)

/-- The cells of a line between two cells, row first. -/
def lineCells (c1 r1 c2 r2 : Int) : List (Int × Int) :=
  let dx := (c2 - c1).natAbs
  let dy := (r2 - r1).natAbs
  if r1 = r2 then (List.range (dx + 1)).map fun (k : Nat) => (r1, min c1 c2 + k)
  else if c1 = c2 then (List.range (dy + 1)).map fun (k : Nat) => (min r1 r2 + k, c1)
  else slantFrom dx dy (heading c1 c2) (heading r1 r2) (max dx dy) ⟨c1, r1, dx - dy⟩

/-- Draws a line between two cells. -/
def drawLine (g : Grid) (c1 r1 c2 r2 : Int) : Grid :=
  g.putAll (lineGlyph c1 r1 c2 r2) (lineCells c1 r1 c2 r2)

end Tromp.Grid
