import Tromp.Grid.Raster
import Tromp.Grid.Trim
import Tromp.Xml.Document

/-!
# Sketches

A document is sketched in two steps.  First its lines are read back together with the size of its
canvas; that is all a sketch depends on.  Then the lines are drawn on a grid, and the grid is
trimmed to a text.  A document that breaks the rules for documents has an empty sketch, and one whose
lines have no raster has none.
-/

namespace Tromp

/-- The lines of a document and the size of its canvas. -/
structure LineArt where
  width : Number
  height : Number
  lines : List (Ends Number)
  /-- What was reported while the lines were read. -/
  warnings : List Svg.Warning

namespace LineArt

/-- The width of a canvas that gives none. -/
def defaultWidth : Number := .whole 1200

/-- The height of a canvas that gives none. -/
def defaultHeight : Number := .whole 800

/-- The lines below the root of a document. -/
def ofRoot (root : Xml.Element) : LineArt :=
  let (lines, warnings) := Svg.readLines root
  { width := Svg.length (root.attribute? "width") defaultWidth
    height := Svg.length (root.attribute? "height") defaultHeight
    lines, warnings }

/-- The lines of a document, if it can be read. -/
def ofMarkup? (markup : String) : Option LineArt := (Xml.root? markup).map ofRoot

/-- The grid on which the lines are drawn for a terminal of a width. -/
def grid? (a : LineArt) (terminal : Option Int) : Except RasterFault Grid :=
  Raster.ofLines? a.lines a.width a.height terminal

end LineArt

/-- A document as text. -/
structure Sketch where
  text : String
  warnings : List Svg.Warning

namespace Sketch

/-- The empty cells that are kept around a drawing. -/
def margin : Int := 1

/-- The sketch of a document for a terminal of a width. -/
def ofMarkup (markup : String) (terminal : Option Int) : Except RasterFault Sketch :=
  match LineArt.ofMarkup? markup with
  | some art => (art.grid? terminal).map fun grid => ⟨grid.text margin, art.warnings⟩
  | none => .ok ⟨"", [.unreadable]⟩

end Sketch

end Tromp
