import Tromp.Drawing.Interval

/-!
# Label placement

Labels are placed one after another, each at the first of 25 candidate positions where it collides
with none of the labels before it: its anchor, then eight directions on each of three rings around
the anchor.  When all candidates collide the label goes far above its anchor, wherever that is.
Either way exactly one box is registered, the box of the position that was chosen.
-/

namespace Tromp

/-- The boxes of the labels placed so far, oldest first, with the space kept around labels and the
distance of the rings. -/
structure LabelRegistry (α : Type) where
  padding : α
  step : α
  boxes : List (Box α)

namespace LabelRegistry

variable {α : Type} [Scalar α]

omit [Scalar α] in
/-- The registry without labels. -/
def empty (padding step : α) : LabelRegistry α := ⟨padding, step, []⟩

/-- The directions of a ring: up, right, down and left, then the diagonals. -/
def directions : List (Int × Int) :=
  [(0, -1), (1, 0), (0, 1), (-1, 0), (1, -1), (1, 1), (-1, 1), (-1, -1)]

/-- The number of rings. -/
def rings : Nat := 3

/-- The box of a label at a position.  A letter is 0.6 of the font size wide and 1.2 of it high. -/
def box (r : LabelRegistry α) (x y : α) (text : String) (fontSize : α) : Box α :=
  let width := Scalar.ofNat text.length * fontSize * 0.6
  let height := fontSize * 1.2
  ⟨.between (x - r.padding) (x + width + r.padding), .between (y - height) (y + r.padding)⟩

/-- The candidate in a direction on a ring. -/
def candidateAt (r : LabelRegistry α) (x y : α) (ring : Nat) (direction : Int × Int) : α × α :=
  (x + ((direction.1 * ring : Int) : α) * r.step, y + ((direction.2 * ring : Int) : α) * r.step)

/-- The positions to try, in order. -/
def candidates (r : LabelRegistry α) (x y : α) : List (α × α) :=
  (x, y) :: (List.range rings).flatMap fun ring =>
    directions.map (r.candidateAt x y (ring + 1))

/-- The position far above an anchor. -/
def farAbove (r : LabelRegistry α) (x y fontSize : α) : α × α :=
  (x, y - Scalar.ofNat (rings + 1) * Scalar.greatest r.step (fontSize * 1.2))

/-- Whether a box collides with no registered one. -/
def isFree (r : LabelRegistry α) (b : Box α) : Bool := !r.boxes.any b.collides

/-- Where a label is placed. -/
def position (r : LabelRegistry α) (x y : α) (text : String) (fontSize : α) : α × α :=
  ((r.candidates x y).find? fun c => r.isFree (r.box c.1 c.2 text fontSize)).getD
    (r.farAbove x y fontSize)

/-- Places a label and registers its box. -/
def place (r : LabelRegistry α) (x y : α) (text : String) (fontSize : α) :
    (α × α) × LabelRegistry α :=
  let c := r.position x y text fontSize
  (c, { r with boxes := r.boxes ++ [r.box c.1 c.2 text fontSize] })

end LabelRegistry

end Tromp
