import Tromp.Grid.Basic
import Tromp.Text.Slice

/-!
# Trimming

A grid is shown without the empty rows and columns around what is drawn on it, except for a margin.
The margin is cut off at the edges of the grid, and a grid with nothing on it shows nothing.  A
negative margin cuts into what is drawn; where it cuts a row past its beginning, the end of the row
counts from the far edge.
-/

namespace Tromp.Grid

/-- Whether a row has a cell that is not empty. -/
def isOccupied (cells : List Char) : Bool := cells.any (· != Glyph.blank)

/-- The first and the last number below a bound for which something holds. -/
def extent? (bound : Nat) (p : Nat → Bool) : Option (Nat × Nat) := do
  let found := (List.range bound).filter p
  return (← found.head?, ← found.getLast?)

/-- The rows from the first to the last that are occupied. -/
def rowExtent? (g : Grid) : Option (Nat × Nat) :=
  let lines := g.cells.map fun line => isOccupied line.toList
  extent? g.rows fun r => lines[r]?.getD false

/-- The columns from the first to the last that are occupied. -/
def colExtent? (g : Grid) : Option (Nat × Nat) :=
  extent? g.cols fun c => g.cells.any fun row => (row[c]?.getD Glyph.blank) != Glyph.blank

/-- The rows of the trimmed grid. -/
def trim (g : Grid) (margin : Int) : List (List Char) :=
  match g.rowExtent?, g.colExtent? with
  | some (top, bottom), some (left, right) =>
    let top := max 0 (top - margin)
    let bottom := min (g.rows - 1 : Int) (bottom + margin)
    let left := max 0 (left - margin)
    let right := min (g.cols - 1 : Int) (right + margin)
    ((g.lines.take (bottom + 1).toNat).drop top.toNat).map (slice left (right + 1))
  | _, _ => []

/-- The text of the trimmed grid, one line for each row. -/
def text (g : Grid) (margin : Int) : String :=
  "\n".intercalate ((g.trim margin).map String.ofList)

end Tromp.Grid
