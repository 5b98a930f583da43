import Tromp.Arithmetic.Places
import Tromp.Grid.Sketch
import Tromp.Source.Fault
import Tromp.Storage.Path

/-!
# Records

What the program tells about its work, each with its severity, the part of the program that it
comes from and a text.  Which of them are shown is decided by the least severity asked for.
-/

namespace Tromp

/-- How much a record matters. -/
inductive Severity where
  | debug
  | info
  | warning
deriving DecidableEq, Repr

namespace Severity

/-- The word for a severity. -/
def word : Severity → String
  | debug => "DEBUG"
  | info => "INFO"
  | warning => "WARNING"

/-- The rank of a severity. -/
def rank : Severity → Nat
  | debug => 0
  | info => 1
  | warning => 2

/-- The least severity shown when details were asked for a number of times. -/
def ofVerbosity : Nat → Severity
  | 0 => warning
  | 1 => info
  | _ => debug

end Severity

/-- What the program tells. -/
inductive Record where
  /-- A fault of an expression was mended. -/
  | mended (fault : SyntaxFault)
  /-- A term of a width, a height and a size was scaled by a factor, to rows of a height. -/
  | fitted (width height size : Nat) (scale unit : Number)
  /-- A diagram was put on a canvas. -/
  | placed (width height dx dy : Number)
  /-- An expression was drawn with a number of lines. -/
  | drawn (expression : String) (lines : Nat)
  /-- A canvas asked for more rows than it got. -/
  | squeezed (requested : Number) (rows : Nat)
  /-- Lines were drawn on a grid. -/
  | rastered (lines cols : Nat) (rows : Int) (across down : Number)
  | savedImage (path : Path)
  | wrote (path : Path)

namespace Record

/-- The severity of a record. -/
def severity : Record → Severity
  | mended .. => .warning
  | fitted .. | placed .. | squeezed .. | rastered .. => .debug
  | drawn .. | savedImage .. | wrote .. => .info

/-- The part of the program that a record comes from. -/
def origin : Record → String
  | mended .. => "lambdiagram.parser"
  | fitted .. => "lambdiagram.display"
  | placed .. | savedImage .. => "lambdiagram.vector"
  | drawn .. => "lambdiagram"
  | squeezed .. | rastered .. => "lambdiagram.grid"
  | wrote .. => "lambdiagram.cli"

/-- The text of a record. -/
def text : Record → String
  | mended fault => "recovering from syntax error: " ++ fault.message
  | fitted width height size scale unit =>
    "term dimensions " ++ toString width ++ "x" ++ toString height ++ " units, size " ++
      toString size ++ ", scale factor " ++ scale.fixed 4 ++ ", unit " ++ unit.fixed 3 ++ "px"
  | placed width height dx dy =>
    "canvas " ++ toString (Scalar.floor width) ++ "x" ++ toString (Scalar.floor height) ++
      ", diagram offset (" ++ dx.fixed 2 ++ ", " ++ dy.fixed 2 ++ ")"
  | drawn expression lines =>
    "diagram of " ++ quoted expression ++ ": " ++ toString lines ++ " lines"
  | squeezed requested rows =>
    requested.general 3 ++ " rows requested, squeezed to " ++ toString rows
  | rastered lines cols rows across down =>
    toString lines ++ " lines on a " ++ toString cols ++ "x" ++ toString rows ++
      " grid, scale factors x=" ++ across.fixed 4 ++ " y=" ++ down.fixed 4
  | savedImage path => "PNG saved to " ++ path.text
  | wrote path => "wrote " ++ path.text

/-- The line that shows a record. -/
def line (r : Record) : String := r.severity.word ++ " " ++ r.origin ++ ": " ++ r.text ++ "\n"

/-- What is shown of a record when it takes some severity to be shown. -/
def linesFrom (level : Severity) (r : Record) : String :=
  if level.rank ≤ r.severity.rank then r.line else ""

end Record

namespace LineArt

/-- What is told while lines are drawn on a grid. -/
def records (a : LineArt) (terminal : Option Int) : List Record :=
  let cols := Raster.columns a.width a.height a.lines.length terminal
  let rows := Raster.rows a.width a.height cols
  let (across, down) := Raster.factors a.width a.height cols rows
  let squeezed := Record.squeezed (Raster.requestedRows a.width a.height cols)
    (Raster.rowsPerColumn * cols)
  (if Raster.isSqueezed a.width a.height cols then [squeezed] else []) ++
    [.rastered a.lines.length cols rows across down]

end LineArt

end Tromp
