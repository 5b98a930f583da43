import Tromp.Arithmetic.Quotient
import Tromp.Grid.Line
import Tromp.Grid.Repair
import Tromp.Svg.Lines

/-!
# Rasters

A drawing is scaled down to a grid whose columns depend on how many lines there are, on the aspect
of the canvas and on the width of the terminal.  Rows follow from the columns: a cell is about twice
as high as it is wide, some vertical resolution is added to keep neighbouring bars apart, and tall
canvases are squeezed.  The end points of each line are mapped to cells, the lines are drawn, and
crossings and gaps are repaired.

On a canvas that is almost nothing wide a factor is infinite.  Then a coordinate of zero has no cell,
and there is no raster (`ofLines?`).
-/

namespace Tromp

/-- Why lines have no raster. -/
inductive RasterFault where
  /-- The product of a coordinate and its factor is no number. -/
  | noCell
deriving DecidableEq, Repr

/-- The text of a fault. -/
def RasterFault.message : RasterFault → String
  | noCell => "conversion from `f64` to `i64` failed"

namespace Raster

/-- Drawings of more lines than this are complex. -/
def complexity : Nat := 50

/-- The columns for a number of lines on a canvas that is neither broad nor tall. -/
def baseColumns (lines : Nat) : Nat :=
  if lines ≤ complexity then 60 else if lines ≤ 200 then 100 else 140

/-- The most columns that a terminal of a width has room for. -/
def terminalLimit (columns : Int) : Nat := (max (columns - 4) 20).toNat

/-- The most rows for each column. -/
def rowsPerColumn : Nat := 4

section Size

variable {α : Type} [Scalar α]

/-- The columns of the grid for a number of lines on a canvas, a quarter more where the canvas is
broad and a fifth fewer where it is tall, within what the terminal has room for. -/
def columns (width height : α) (lines : Nat) (terminal : Option Int) : Nat :=
  let base := baseColumns lines
  let aspect := width / height
  let wanted :=
    if 2.5 < aspect then base * 5 / 4 else if aspect < 0.7 then base * 4 / 5 else base
  match terminal with
  | some n => min wanted (terminalLimit n)
  | none => wanted

/-- The rows that the columns of a canvas ask for. -/
def requestedRows (width height : α) (cols : Nat) : α :=
  height / width * Scalar.ofNat cols * 0.5 * 1.4

/-- Whether a canvas asks for more rows than a grid may have. -/
def isSqueezed (width height : α) (cols : Nat) : Bool :=
  decide (Scalar.ofNat (rowsPerColumn * cols) < requestedRows width height cols)

/-- The rows of the grid, of which there are none where the number is not positive: that of a
canvas with sides of different signs. -/
def rows (width height : α) (cols : Nat) : Int :=
  let wanted :=
    if isSqueezed width height cols then ((rowsPerColumn * cols : Nat) : Int)
    else Scalar.ceil (requestedRows width height cols)
  wanted + 1

/-- The columns and the rows of the grid for a number of lines on any canvas.  One with a side of
length zero has no aspect. -/
def size? (width height : α) (lines : Nat) (terminal : Option Int) :
    Except (ZeroDivision α) (Nat × Int) := do
  let _ ← Scalar.quotient? width height
  let _ ← Scalar.quotient? height width
  let cols := columns width height lines terminal
  return (cols, rows width height cols)

/-- The factors from the canvas to a grid, for columns and for rows. -/
def factors (width height : α) (cols : Nat) (rows : Int) : α × α :=
  let sx := Scalar.ofNat cols / width
  (sx, Scalar.least (sx * 0.5 * 1.4) (((rows - 1 : Int) : α) / height))

/-- The cell of a coordinate: the nearest one, within the limit. -/
def cell (x factor : α) (limit : Int) : Int :=
  max 0 (min (limit - 1) (Scalar.floor (x * factor + 0.5)))

/-- Whether a coordinate has a cell.  Only what is no number is not equal to itself. -/
def hasCell (x factor : α) : Bool :=
  let place := x * factor + 0.5
  decide (place ≤ place)

/-- Whether the ends of a line have cells. -/
def hasCells (line : Ends α) (factors : α × α) : Bool :=
  hasCell line.x1 factors.1 && hasCell line.y1 factors.2 && hasCell line.x2 factors.1 &&
    hasCell line.y2 factors.2

/-- The cells of the ends of a line. -/
def cellsOf (line : Ends α) (factors : α × α) (cols : Nat) (rows : Int) : Ends Int :=
  { x1 := cell line.x1 factors.1 cols
    y1 := cell line.y1 factors.2 rows
    x2 := cell line.x2 factors.1 cols
    y2 := cell line.y2 factors.2 rows }

end Size

/-- Draws lines between cells on an empty grid and repairs crossings and gaps.  Complex drawings
have longer gaps bridged. -/
def ofCells (rows cols : Nat) (lines : List (Ends Int)) : Grid :=
  let drawn := lines.foldl (fun g l => g.drawLine l.x1 l.y1 l.x2 l.y2) (Grid.blank rows cols)
  drawn.resolveCrossings.fillGaps (if complexity < lines.length then 2 else 1)

/-- The grid of lines on a canvas. -/
def ofLines {α : Type} [Scalar α] (lines : List (Ends α)) (width height : α)
    (terminal : Option Int) : Grid :=
  let cols := columns width height lines.length terminal
  let rows := rows width height cols
  ofCells rows.toNat cols (lines.map fun l => cellsOf l (factors width height cols rows) cols rows)

/-- The grid of lines on a canvas, if their ends have cells. -/
def ofLines? {α : Type} [Scalar α] (lines : List (Ends α)) (width height : α)
    (terminal : Option Int) : Except RasterFault Grid :=
  let cols := columns width height lines.length terminal
  let rows := rows width height cols
  if lines.all (hasCells · (factors width height cols rows)) then
    .ok (ofLines lines width height terminal)
  else .error .noCell

end Raster

end Tromp
