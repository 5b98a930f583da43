import Tromp.Arithmetic.Checked
import Tromp.Drawing.Layout

/-!
# Layouts that overflow

A term is laid out in numbers of two kinds, and a whole number among the settings or an index of the
term may be too large for the doubles it meets.  Then there is no drawing.  `checkedLayout` is the
layout of a tree with that check: the tree is drawn a second time in checked numbers, and the first
overflow among all the numbers of that run is reported.  An overflow spreads, so it shows in the
drawing or in the boxes of the labels, wherever it happened.
-/

namespace Tromp

/-- Why a tree with foreign leaves in `ε` is not laid out. -/
inductive LayoutFault (ε : Type) where
  /-- The tree cannot be drawn. -/
  | structural (fault : StructuralFault ε)
  /-- A number became too large on the way. -/
  | overflow (fault : Overflow)
deriving Repr

section Numbers

variable {α : Type}

/-- The numbers of a primitive. -/
def Primitive.numbers : Primitive α → List α
  | line s => [s.x1, s.y1, s.x2, s.y2, s.width]
  | label l => [l.x, l.y, l.fontSize]
  | dot d => [d.cx, d.cy, d.r]

/-- The ends of an interval. -/
def Interval.numbers : Interval α → List α
  | empty => []
  | between low high => [low, high]

/-- The ends of a box. -/
def Box.numbers (b : Box α) : List α := b.x.numbers ++ b.y.numbers

/-- The ends of the boxes of the labels that were placed. -/
def PaintState.numbers (st : PaintState α) : List α := st.registry.boxes.flatMap Box.numbers

variable [Scalar α]

/-- The numbers of the primitives of a fragment. -/
def Fragment.numbers (d : Fragment α) : List α := d.primitives.flatMap Primitive.numbers

/-- The numbers that fit a term to the canvas, in the order in which they are computed. -/
def LayoutSettings.fitNumbers (s : LayoutSettings α) (t : Term) : List α :=
  let across := s.unfittedWidth (Scalar.ofNat t.width)
  let down := s.unfittedHeight (Scalar.ofNat t.height)
  let width := available s.width s.fitMargin
  let height := available s.height s.fitMargin
  [across, down, width, height, width / across, height / down, s.unitSize * s.scaleOf t]

/-- The numbers of a drawing and of what is used up after it. -/
def drawnNumbers {ε : Type} : Except (StructuralFault ε) (Fragment α) × PaintState α → List α
  | (.ok d, st) => d.numbers ++ st.numbers
  | (.error _, st) => st.numbers

/-- The numbers that laying out a tree comes to. -/
def layoutNumbers {ε : Type} (s : LayoutSettings α) (t : Tree ε) : List α :=
  match t.drawable with
  | .error _ => []
  | .ok term =>
    let scale := s.scaleOf term
    let painter : Painter α := { settings := s, unit := s.unitSize * scale }
    s.fitNumbers term ++ drawnNumbers ((painter.draw t .root).run.run (.start s)) ++
      [s.padding * scale]

end Numbers

namespace LayoutSettings

/-- The settings with other numbers. -/
def map {α β : Type} (f : α → β) (s : LayoutSettings α) : LayoutSettings β :=
  { unitSize := f s.unitSize
    lineWidth := f s.lineWidth
    padding := f s.padding
    width := f s.width
    height := f s.height
    fitMargin := f s.fitMargin
    binderOverhang := f s.binderOverhang
    colors := s.colors
    freeColor := s.freeColor
    textColor := s.textColor
    operatorColor := s.operatorColor
    numeralColor := s.numeralColor
    labelPadding := f s.labelPadding
    labelStep := f s.labelStep
    showLabels := s.showLabels
    variableLabels := s.variableLabels
    hideApplicationSymbols := s.hideApplicationSymbols }

/-- The settings with their numbers as checked numbers. -/
def checked (s : LayoutSettings Number) : LayoutSettings Checked := s.map .ok

end LayoutSettings

/-- The first overflow in laying out a tree. -/
def layoutOverflow? {ε : Type} (s : LayoutSettings Number) (t : Tree ε) : Option Overflow :=
  Checked.overflow? (layoutNumbers s.checked t)

/-- The drawing of a tree, fitted to the canvas, unless a number overflows. -/
def checkedLayout {ε : Type} (s : LayoutSettings Number) (t : Tree ε) :
    Except (LayoutFault ε) (Fragment Number) := do
  let drawn ← (layout s t).mapError .structural
  match layoutOverflow? s t with
  | some fault => throw (.overflow fault)
  | none => return drawn

end Tromp
