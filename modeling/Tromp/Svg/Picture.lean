import Tromp.Arithmetic.Places
import Tromp.Drawing.Primitive
import Tromp.Settings.Render
import Tromp.Xml.Element

/-!
# Pictures

A picture is the SVG document of a fragment: the background over the whole canvas, and a group that
moves the fragment to its place.  In the group lines come first, then dots, then labels, so that
labels lie on top.  Coordinates are written to the thousandth.
-/

namespace Tromp

section Placement

variable {α : Type} [Scalar α]

/-- The vector by which a fragment is moved onto its canvas.  A fragment that draws nothing is moved
by its padding. -/
def RenderSettings.offset (s : RenderSettings α) (f : Fragment α) : α × α :=
  match f.bounds with
  | ⟨.between xl xh, .between yl yh⟩ =>
    match s.anchor with
    | .topLeft => (f.padding - xl, f.padding - yl)
    | .center =>
      ((s.width - (xh - xl)) / Scalar.ofNat 2 - xl, (s.height - (yh - yl)) / Scalar.ofNat 2 - yl)
  | _ => (f.padding, f.padding)

end Placement

open Xml

namespace Svg

/-- The text of a coordinate. -/
def coordinate (x : Number) : String := x.thousandths.text

end Svg

namespace Segment

/-- The element of a line. -/
def element (s : Segment Number) : Element :=
  .node "line"
    ([("stroke", s.color), ("stroke-width", Svg.coordinate s.width), ("x1", Svg.coordinate s.x1),
      ("y1", Svg.coordinate s.y1), ("x2", Svg.coordinate s.x2), ("y2", Svg.coordinate s.y2)] ++
      if s.rounded then [("stroke-linecap", "round")] else []) "" []

end Segment

namespace Dot

/-- The element of a dot. -/
def element (d : Dot Number) : Element :=
  .node "circle" [("cx", Svg.coordinate d.cx), ("cy", Svg.coordinate d.cy),
    ("r", Svg.coordinate d.r), ("fill", d.color)] "" []

end Dot

namespace Label

/-- The element of a label. -/
def element (l : Label Number) : Element :=
  .node "text" [("font-family", "monospace"), ("font-size", l.fontSize.text),
    ("font-weight", "bold"), ("fill", l.color), ("x", Svg.coordinate l.x),
    ("y", Svg.coordinate l.y)] l.text []

end Label

/-- The elements of a fragment: lines, dots, labels. -/
def Fragment.elements (f : Fragment Number) : List Element :=
  f.segments.map Segment.element ++ f.dots.map Dot.element ++ f.labels.map Label.element

/-- A document with the size of its canvas. -/
structure Picture where
  root : Element
  width : Number
  height : Number

namespace Picture

/-- The text of the document. -/
def markup (p : Picture) : String := p.root.print

/-- The attributes for the size of the canvas. -/
def size (s : RenderSettings Number) : List (String × String) :=
  [("width", s.width.text), ("height", s.height.text)]

/-- The background over the whole canvas. -/
def background (s : RenderSettings Number) : Element :=
  .node "rect" (size s ++ [("fill", s.backgroundColor)]) "" []

/-- The text of the transform that moves a fragment to its place. -/
def transform (s : RenderSettings Number) (f : Fragment Number) : String :=
  "translate(" ++ Svg.coordinate (s.offset f).1 ++ " " ++ Svg.coordinate (s.offset f).2 ++ ")"

/-- The elements of a fragment, moved to its place. -/
def group (s : RenderSettings Number) (f : Fragment Number) : Element :=
  .node "g" [("transform", transform s f)] "" f.elements

/-- The picture of a fragment on the canvas of some settings. -/
def ofFragment (s : RenderSettings Number) (f : Fragment Number) : Picture where
  root := .node "svg"
    ([("xmlns", "http://www.w3.org/2000/svg"),
      ("viewBox", "0 0 " ++ s.width.text ++ " " ++ s.height.text)] ++ size s) ""
    [background s, group s f]
  width := s.width
  height := s.height

end Picture

end Tromp
