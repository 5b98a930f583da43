import Tromp.Drawing.Interval

/-!
# Primitives and fragments

A drawing is a list of primitives: straight lines, labels and dots.  A fragment is the drawing of a
term together with its size in layout units; its primitives live in its own frame, whose origin is
the upper left corner of the term.  Rows grow downwards.
-/

namespace Tromp

/-- A straight line. -/
structure Segment (α : Type) where
  x1 : α
  y1 : α
  x2 : α
  y2 : α
  color : String
  width : α
  /-- Whether the line has round caps. -/
  rounded : Bool
deriving DecidableEq, Repr

/-- A text whose baseline starts at a point. -/
structure Label (α : Type) where
  x : α
  y : α
  text : String
  color : String
  fontSize : α
deriving DecidableEq, Repr

/-- A filled circle. -/
structure Dot (α : Type) where
  cx : α
  cy : α
  r : α
  color : String
deriving DecidableEq, Repr

/-- What a drawing is made of. -/
inductive Primitive (α : Type) where
  | line (s : Segment α)
  | label (l : Label α)
  | dot (d : Dot α)
deriving DecidableEq, Repr

namespace Primitive

variable {α : Type}

/-- The line, if a primitive is one. -/
def line? : Primitive α → Option (Segment α)
  | line s => some s
  | _ => none

/-- The label, if a primitive is one. -/
def label? : Primitive α → Option (Label α)
  | label l => some l
  | _ => none

/-- The dot, if a primitive is one. -/
def dot? : Primitive α → Option (Dot α)
  | dot d => some d
  | _ => none

variable [Scalar α]

/-- The primitive moved by a vector. -/
def translate (dx dy : α) : Primitive α → Primitive α
  | line s => line { s with x1 := s.x1 + dx, y1 := s.y1 + dy, x2 := s.x2 + dx, y2 := s.y2 + dy }
  | label l => label { l with x := l.x + dx, y := l.y + dy }
  | dot d => dot { d with cx := d.cx + dx, cy := d.cy + dy }

/-- The box around a primitive.  The width of a line does not count, and a label is as high as its
font. -/
def bounds : Primitive α → Box α
  | line s => ⟨.spanning s.x1 [s.x2], .spanning s.y1 [s.y2]⟩
  | label l =>
    let width := Scalar.ofNat l.text.length * l.fontSize * 0.6
    ⟨.between l.x (l.x + width), .between (l.y - l.fontSize) l.y⟩
  | dot d => ⟨.between (d.cx - d.r) (d.cx + d.r), .between (d.cy - d.r) (d.cy + d.r)⟩

end Primitive

/-- The drawing of a term. -/
structure Fragment (α : Type) [Scalar α] where
  /-- The number of columns. -/
  width : Nat
  /-- The number of rows. -/
  height : Nat
  /-- The row where the leftmost line ends. -/
  stem : Nat
  primitives : List (Primitive α)
  /-- Pixels per row. -/
  unitSize : α := 1.0
  /-- The factor that fitted the drawing to its canvas. -/
  scale : α := 1.0
  /-- The margin around the drawing. -/
  padding : α := 0.0

namespace Fragment

variable {α : Type} [Scalar α]

/-- The fragment with its primitives moved by a vector. -/
def translate (f : Fragment α) (dx dy : α) : Fragment α :=
  { f with primitives := f.primitives.map (Primitive.translate dx dy) }

/-- The least box around all primitives. -/
def bounds (f : Fragment α) : Box α :=
  f.primitives.foldl (fun b p => b.union p.bounds) .empty

/-- The lines of a fragment. -/
def segments (f : Fragment α) : List (Segment α) := f.primitives.filterMap Primitive.line?

/-- The dots of a fragment. -/
def dots (f : Fragment α) : List (Dot α) := f.primitives.filterMap Primitive.dot?

/-- The labels of a fragment. -/
def labels (f : Fragment α) : List (Label α) := f.primitives.filterMap Primitive.label?

end Fragment

end Tromp
