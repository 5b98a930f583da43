import Tromp.Drawing.Overflow
import Tromp.Svg.Picture
import Tromp.Text.Digit

/-!
# Fragments without a picture

Two things can come between a fragment and its picture.  The vector that moves the fragment onto its
canvas is computed from numbers of two kinds, and a whole number among them may be too large for the
doubles it meets.  And a whole number with too many digits is not written.  `Picture.render` is the
picture of a fragment with both checks: the vector is computed a second time in checked numbers.

The bounds of each primitive belong to that computation.  They are looked at one by one, because the
box around all of them is found by comparing, and a comparison hides an overflow.
-/

namespace Tromp

/-- Why a fragment has no picture. -/
inductive RenderFault where
  /-- A number became too large while the fragment was moved onto its canvas. -/
  | overflow (fault : Overflow)
  /-- A whole number has too many digits to be written. -/
  | tooLong
deriving DecidableEq, Repr

/-- The text of a fault. -/
def RenderFault.message : RenderFault → String
  | overflow fault => fault.message
  | tooLong =>
    "Exceeds the limit (" ++ toString digitLimit ++ " digits) for integer string conversion; " ++
      "use sys.set_int_max_str_digits() to increase the limit"

/-- The least whole number that has too many digits. -/
@[irreducible] def digitBound : Nat := tenTo digitLimit

/-- Whether a number can be written. -/
def Number.isWritable : Number → Bool
  | whole n => n.natAbs < digitBound
  | real _ => true

section Numbers

variable {α : Type} [Scalar α]

/-- The numbers that move a fragment onto its canvas, in the order in which they are computed. -/
def RenderSettings.offsetNumbers (s : RenderSettings α) (f : Fragment α) : List α :=
  f.primitives.flatMap (·.bounds.numbers) ++ [(s.offset f).1, (s.offset f).2]

/-- The numbers that the picture of a fragment shows. -/
def RenderSettings.writtenNumbers (s : RenderSettings α) (f : Fragment α) : List α :=
  [s.width, s.height, (s.offset f).1, (s.offset f).2] ++ f.numbers

end Numbers

section Maps

variable {α β : Type} (g : α → β)

/-- The primitive with other numbers. -/
def Primitive.map : Primitive α → Primitive β
  | line s => line ⟨g s.x1, g s.y1, g s.x2, g s.y2, s.color, g s.width, s.rounded⟩
  | label l => label ⟨g l.x, g l.y, l.text, l.color, g l.fontSize⟩
  | dot d => dot ⟨g d.cx, g d.cy, g d.r, d.color⟩

/-- The fragment with other numbers. -/
def Fragment.map [Scalar α] [Scalar β] (f : Fragment α) : Fragment β :=
  { width := f.width
    height := f.height
    stem := f.stem
    primitives := f.primitives.map (Primitive.map g)
    unitSize := g f.unitSize
    scale := g f.scale
    padding := g f.padding }

/-- The settings with other numbers. -/
def RenderSettings.map (s : RenderSettings α) : RenderSettings β :=
  { s.toLayoutSettings.map g with
    backgroundColor := s.backgroundColor
    anchor := s.anchor }

end Maps

/-- The fragment with its numbers as checked numbers. -/
def Fragment.checked (f : Fragment Number) : Fragment Checked := f.map .ok

/-- The settings with their numbers as checked numbers. -/
def RenderSettings.checked (s : RenderSettings Number) : RenderSettings Checked := s.map .ok

/-- The first overflow in moving a fragment onto its canvas. -/
def offsetOverflow? (s : RenderSettings Number) (f : Fragment Number) : Option Overflow :=
  Checked.overflow? (s.checked.offsetNumbers f.checked)

/-- The first reason why a fragment has no picture. -/
def renderFault? (s : RenderSettings Number) (f : Fragment Number) : Option RenderFault :=
  match offsetOverflow? s f with
  | some fault => some (.overflow fault)
  | none => if (s.writtenNumbers f).all Number.isWritable then none else some .tooLong

/-- The picture of a fragment, unless a number overflows or is too long. -/
def Picture.render (s : RenderSettings Number) (f : Fragment Number) : Except RenderFault Picture :=
  match renderFault? s f with
  | some fault => .error fault
  | none => .ok (ofFragment s f)

end Tromp
