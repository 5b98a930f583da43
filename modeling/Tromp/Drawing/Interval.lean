import Tromp.Arithmetic.Scalar

/-!
# Intervals and boxes

An interval is empty or reaches from a low end to a high end.  The union of two intervals is the
least interval around both, so intervals form a semilattice with the empty one as its bottom.  Two
intervals overlap when they share more than an end, and two boxes collide when they overlap in both
directions; boxes that merely touch do not.
-/

namespace Tromp

/-- A range of scalars, or nothing. -/
inductive Interval (α : Type) where
  | empty
  | between (low high : α)
deriving DecidableEq, Repr

/-- Why there is no end or no interval. -/
inductive IntervalFault where
  /-- The empty interval has no ends. -/
  | emptyInterval
  /-- No interval is the least one around no points. -/
  | noPoints
deriving DecidableEq, Repr

/-- The text of a fault. -/
def IntervalFault.message : IntervalFault → String
  | emptyInterval => "interval is empty"
  | noPoints => "min() arg is an empty sequence"

namespace Interval

variable {α : Type}

/-- Whether an interval is not empty. -/
def isNonempty : Interval α → Bool
  | empty => false
  | between _ _ => true

/-- The low end. -/
def low : Interval α → Except IntervalFault α
  | empty => .error .emptyInterval
  | between a _ => .ok a

/-- The high end. -/
def high : Interval α → Except IntervalFault α
  | empty => .error .emptyInterval
  | between _ b => .ok b

variable [Scalar α]

/-- The least interval around two intervals. -/
def union : Interval α → Interval α → Interval α
  | empty, j => j
  | between a b, empty => between a b
  | between a b, between c d => between (Scalar.least a c) (Scalar.greatest b d)

/-- Whether two intervals share more than an end. -/
def overlaps : Interval α → Interval α → Bool
  | between a b, between c d => decide (a < d) && decide (c < b)
  | _, _ => false

/-- The distance of the ends; the empty interval has length zero. -/
def length : Interval α → α
  | empty => Scalar.zero
  | between a b => b - a

/-- The least interval around a point and some more. -/
def spanning (p : α) (points : List α) : Interval α :=
  between (points.foldl Scalar.least p) (points.foldl Scalar.greatest p)

/-- The least interval around some points, of which there has to be one. -/
def around? : List α → Except IntervalFault (Interval α)
  | [] => .error .noPoints
  | p :: points => .ok (spanning p points)

end Interval

/-- A rectangle with sides along the axes. -/
structure Box (α : Type) where
  x : Interval α
  y : Interval α
deriving DecidableEq, Repr

namespace Box

variable {α : Type}

/-- The box around nothing. -/
def empty : Box α := ⟨.empty, .empty⟩

variable [Scalar α]

/-- The least box around two boxes. -/
def union (a b : Box α) : Box α := ⟨a.x.union b.x, a.y.union b.y⟩

/-- Whether two boxes share more than an edge. -/
def collides (a b : Box α) : Bool := a.x.overlaps b.x && a.y.overlaps b.y

end Box

end Tromp
