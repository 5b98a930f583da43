import Tromp.Drawing.Fit
import Tromp.Drawing.Painter

/-!
# Laying out a term

A tree is laid out in two steps.  First it is checked as a whole: it has to be a term, every
variable has to carry an index, and every index has to name an abstraction around its variable.
Then the term is measured, the size of a row is fitted to the canvas, and the painter draws the
term with it.  Every fault is reported by the first step.
-/

namespace Tromp

variable {α ε : Type} [Scalar α]

/-- The tree as a term that can be drawn, or the first reason why it is none. -/
def Tree.drawable (t : Tree ε) : Except (StructuralFault ε) Term :=
  match t.check with
  | .error m => .error (.malformed m.node)
  | .ok term =>
    if !term.isResolved then .error .unresolved
    else if !term.isValid 0 then .error .pastLambdas
    else .ok term

/-- The factor that fits a term to the canvas. -/
def LayoutSettings.scaleOf (s : LayoutSettings α) (t : Term) : α :=
  s.fitScale (Scalar.ofNat t.width) (Scalar.ofNat t.height) t.size

/-- The site of a whole drawing. -/
def Site.root : Site α := { x := 0.0, y := 0.0, binders := [], inNumeral := false }

/-- The drawing of a tree, fitted to the canvas. -/
def layout (s : LayoutSettings α) (t : Tree ε) : Except (StructuralFault ε) (Fragment α) := do
  let term ← t.drawable
  let scale := s.scaleOf term
  let painter : Painter α := { settings := s, unit := s.unitSize * scale }
  let (drawn, _) := ((painter.draw t .root).run).run (.start s)
  return { ← drawn with unitSize := painter.unit, scale, padding := s.padding * scale }

end Tromp
