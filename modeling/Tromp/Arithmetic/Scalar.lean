/-!
# Scalars

Every length of a drawing is computed in a type of *scalars*: a type with the four operations of
arithmetic, an order, decimal constants and rounding to integers.  The drawing rules are written
once, over an arbitrary scalar type, and are then read in two ways.

1.  `Rat` is exact arithmetic.  Geometry is a statement about rational drawings.
2.  `Tromp.Number` is the arithmetic documents are written in, where whole numbers stay whole and
    everything else is a binary double.

A rule that holds for every scalar type holds for both.
-/

namespace Tromp

/-- A type of lengths.  `n : Int` is the length `((n : Int) : α)`, and `1.2 : α` is the scalar
nearest to six fifths. -/
class Scalar (α : Type) extends
    Add α, Sub α, Mul α, Div α, Neg α, LT α, LE α, OfScientific α, IntCast α where
  /-- The strict order can be decided. -/
  decideLT : ∀ a b : α, Decidable (a < b)
  /-- The order can be decided. -/
  decideLE : ∀ a b : α, Decidable (a ≤ b)
  /-- The greatest integer that is not above a scalar. -/
  floor : α → Int
  /-- The least integer that is not below a scalar. -/
  ceil : α → Int

namespace Scalar

variable {α : Type} [Scalar α]

@[reducible] instance (priority := low) decidableLT (a b : α) : Decidable (a < b) :=
  Scalar.decideLT a b

@[reducible] instance (priority := low) decidableLE (a b : α) : Decidable (a ≤ b) :=
  Scalar.decideLE a b

/-- The smaller of two scalars; the first of them where neither is smaller. -/
def least (a b : α) : α := if b < a then b else a

/-- The greater of two scalars; the first of them where neither is greater. -/
def greatest (a b : α) : α := if a < b then b else a

theorem least_eq (a b : α) : least a b = a ∨ least a b = b := by
  unfold least
  split
  · exact .inr rfl
  · exact .inl rfl

theorem greatest_eq (a b : α) : greatest a b = a ∨ greatest a b = b := by
  unfold greatest
  split
  · exact .inr rfl
  · exact .inl rfl

/-- The scalar of a natural number. -/
def ofNat (n : Nat) : α := ((n : Int) : α)

/-- The scalar zero. -/
def zero : α := ((0 : Int) : α)

/-- Whether a scalar is zero. -/
def isZero (x : α) : Bool := decide (x ≤ zero) && decide (zero ≤ x)

end Scalar

/-- Exact arithmetic. -/
instance : Scalar Rat where
  decideLT _ _ := inferInstance
  decideLE _ _ := inferInstance
  floor := Rat.floor
  ceil := Rat.ceil

end Tromp
