import Tromp.Arithmetic.Number

/-!
# Quotients

The division of a scalar type is total.  Where a divisor may be zero the quotient is taken with a
check, which refuses a zero of either sign; what is not a number is no zero.
-/

namespace Tromp

/-- The division of a scalar by zero. -/
structure ZeroDivision (α : Type) where
  dividend : α
  divisor : α
deriving Repr

/-- The text of the fault: it tells whether a double took part. -/
def ZeroDivision.message (d : ZeroDivision Number) : String :=
  match d.dividend, d.divisor with
  | .whole _, .whole _ => "division by zero"
  | _, _ => "float division by zero"

namespace Scalar

variable {α : Type} [Scalar α]

/-- The quotient, unless the divisor is zero. -/
def quotient? (a b : α) : Except (ZeroDivision α) α :=
  if isZero b then .error ⟨a, b⟩ else .ok (a / b)

/-- A quotient that is not refused is that of the total division. -/
theorem quotient?_eq_ok {a b : α} (h : isZero b = false) : quotient? a b = .ok (a / b) := by
  simp [quotient?, h]

end Scalar

end Tromp
