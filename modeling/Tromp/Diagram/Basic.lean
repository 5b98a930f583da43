import Tromp.Diagram.Record
import Tromp.Drawing.Overflow
import Tromp.Source.Parser
import Tromp.Svg.Rendering
import Tromp.Term.Binding
import Tromp.Term.Numeral
import Tromp.Term.Printer

/-!
# Diagrams

A diagram is made from an expression in one go: the expression is parsed, its literals are replaced
by numerals, its variables are resolved, the term is laid out and the layout becomes a picture.
A lenient parser mends what it finds, and the diagram keeps the faults that were mended.  What fails
after parsing is no fault of the expression's form: a term breaks, and with it the program.

A term also breaks on the numbers of its settings: one may overflow in the layout or on the way to
the canvas, or be too long to be written.  Whatever was told until then has been told.
-/

namespace Tromp

/-- An expression with its resolved term and its layout. -/
structure Diagram where
  expression : String
  settings : RenderSettings Number
  /-- The faults of the expression that were mended. -/
  mended : List SyntaxFault
  term : Term
  fragment : Fragment Number

/-- Why a term has no diagram. -/
inductive TermFault where
  /-- Its literals cannot be expanded. -/
  | unexpanded (fault : ExpansionFault Empty)
  /-- It cannot be drawn. -/
  | undrawable (fault : StructuralFault Empty)
  /-- A number became too large. -/
  | overflow (fault : Overflow)
  /-- A whole number has too many digits to be written. -/
  | unwritable

/-- Why an expression has no diagram. -/
inductive DiagramFault where
  /-- It is no expression. -/
  | unparsed (fault : SyntaxFault)
  /-- Its term has none.  Some records were told before. -/
  | broken (told : List Record) (fault : TermFault)

namespace TermFault

/-- The text of the fault of a term. -/
def message : TermFault → String
  | unexpanded fault => fault.message Empty.elim
  | undrawable fault => fault.message Empty.elim
  | overflow fault => fault.message
  | unwritable => RenderFault.tooLong.message

/-- A fault of the layout. -/
def ofLayout : LayoutFault Empty → TermFault
  | .structural fault => undrawable fault
  | .overflow fault => overflow fault

/-- A fault of the picture. -/
def ofRender : RenderFault → TermFault
  | .overflow fault => overflow fault
  | .tooLong => unwritable

end TermFault

namespace Record

/-- What is told when a term has been fitted to the canvas. -/
def ofFit (s : LayoutSettings Number) (t : Term) : Record :=
  fitted t.width t.height t.size (s.scaleOf t) (s.unitSize * s.scaleOf t)

/-- What is told when a fragment has been moved onto its canvas. -/
def ofPlace (s : RenderSettings Number) (f : Fragment Number) : Record :=
  placed s.width s.height (s.offset f).1 (s.offset f).2

/-- What was told before a layout failed.  A term is fitted after the checks, and drawn then. -/
def beforeLayoutFault (s : LayoutSettings Number) (t : Term) : LayoutFault Empty → List Record
  | .structural _ => []
  | .overflow _ => if (Checked.overflow? (s.checked.fitNumbers t)).isSome then [] else [ofFit s t]

/-- What was told before a picture failed. -/
def beforeRenderFault (s : RenderSettings Number) (t : Term) (f : Fragment Number) :
    RenderFault → List Record
  | .overflow _ => [ofFit s.toLayoutSettings t]
  | .tooLong => [ofFit s.toLayoutSettings t, ofPlace s f]

end Record

namespace Diagram

/-- The layout of a resolved term, if it becomes a picture.  Otherwise there is a fault, after some
records. -/
def drawing (s : RenderSettings Number) (t : Term) :
    Except (List Record × TermFault) (Fragment Number) := do
  let f ← (checkedLayout s.toLayoutSettings t).mapError fun fault =>
    (Record.beforeLayoutFault s.toLayoutSettings t fault, .ofLayout fault)
  let _ ← (Picture.render s f).mapError fun fault =>
    (Record.beforeRenderFault s t f fault, .ofRender fault)
  return f

/-- The diagram of an expression. -/
def generate (mode : Mode) (s : RenderSettings Number) (expression : String) :
    Except DiagramFault Diagram := do
  let parsed := parseWith mode expression
  let mended := parsed.parser.faults
  let read ← parsed.result.mapError .unparsed
  let expanded ← read.expand?.mapError fun fault =>
    .broken (mended.map .mended) (.unexpanded fault)
  let term := expanded.resolve
  let fragment ← (drawing s term).mapError fun (told, fault) =>
    .broken (mended.map .mended ++ told) fault
  return { expression, settings := s, mended, term, fragment }

/-- The text shown for a diagram: its term. -/
def title (d : Diagram) : String := d.term.pretty

/-- The picture of a diagram. -/
def picture (d : Diagram) : Picture := .ofFragment d.settings d.fragment

/-- The SVG document of a diagram. -/
def svg (d : Diagram) : String := d.picture.markup

/-- The sketch of a diagram for a terminal of a width. -/
def sketch (d : Diagram) (terminal : Option Int) : Except RasterFault Sketch :=
  Sketch.ofMarkup d.svg terminal

/-- The diagram as part of a page. -/
def html (d : Diagram) : String := "<div>" ++ d.svg ++ "</div>"

/-- What is told while a diagram is made. -/
def records (d : Diagram) : List Record :=
  d.mended.map .mended ++
    [.ofFit d.settings.toLayoutSettings d.term, .ofPlace d.settings d.fragment,
     .drawn d.expression d.fragment.segments.length]

/-- What is told while a diagram is sketched. -/
def sketchRecords (d : Diagram) (terminal : Option Int) : List Record :=
  match LineArt.ofMarkup? d.svg with
  | some art => art.records terminal
  | none => []

end Diagram

end Tromp
