import Tromp.Arithmetic.Quotient
import Tromp.Settings.Layout

/-!
# Fitting a diagram to its canvas

The rows of a diagram are scaled by one factor so that the diagram, with its padding, fits what the
canvas leaves free, and then by a safety factor that is smaller for larger terms.  A diagram without
width or height cannot be fitted where there is no padding either; the diagram of a term has both.
-/

namespace Tromp

variable {α : Type} [Scalar α]

/-- The part of the canvas that a term of a size may fill. -/
def safetyFactor (size : Nat) : α :=
  if 80 < size then 0.5 else if 50 < size then 0.6 else 0.7

/-- The part of a side of the canvas that is left for the diagram: what remains beside the margin,
or the whole side where nothing remains. -/
def available (side margin : α) : α :=
  if side - margin ≤ Scalar.zero then side else side - margin

namespace LayoutSettings

/-- The width of a diagram before it is fitted: each layout unit is two rows wide. -/
def unfittedWidth (s : LayoutSettings α) (width : α) : α :=
  Scalar.ofNat 2 * width * s.unitSize + Scalar.ofNat 2 * s.padding

/-- The height of a diagram before it is fitted: one row more than its layout units. -/
def unfittedHeight (s : LayoutSettings α) (height : α) : α :=
  (height + Scalar.ofNat 1) * s.unitSize + Scalar.ofNat 2 * s.padding

/-- The factor for the rows of a diagram with a width and a height in layout units and the size of
its term. -/
def fitScale (s : LayoutSettings α) (width height : α) (size : Nat) : α :=
  Scalar.least (available s.width s.fitMargin / s.unfittedWidth width)
    (available s.height s.fitMargin / s.unfittedHeight height) * safetyFactor size

/-- The same factor for any width and height, also those that no term has. -/
def fitScale? (s : LayoutSettings α) (width height : α) (size : Nat) :
    Except (ZeroDivision α) α := do
  let across ← Scalar.quotient? (available s.width s.fitMargin) (s.unfittedWidth width)
  let down ← Scalar.quotient? (available s.height s.fitMargin) (s.unfittedHeight height)
  return Scalar.least across down * safetyFactor size

end LayoutSettings

end Tromp
