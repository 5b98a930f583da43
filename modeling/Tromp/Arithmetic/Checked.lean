import Tromp.Arithmetic.Number

/-!
# Numbers that overflow

Whole numbers have no bound, doubles do.  A whole number that takes part in arithmetic of doubles is
turned into a double first, which it may be too large for, and so may be a quotient of whole
numbers.  `Number` does not notice: it gives an infinity.  A *checked* number is a number or the
overflow that came first on the way to it, and an overflow spreads to whatever is computed from it.
Comparisons are exact and never overflow.
-/

namespace Tromp

/-- Why there is no double. -/
inductive Overflow where
  /-- A whole number that should become a double is too large. -/
  | operand
  /-- A quotient of whole numbers is too large. -/
  | quotient
deriving DecidableEq, Repr

/-- The text of an overflow. -/
def Overflow.message : Overflow → String
  | operand => "int too large to convert to float"
  | quotient => "integer division result too large for a float"

/-- The least natural number that is too large for a double.  It lies half way between the greatest
double and the next power of two, and a tie would go to the latter. -/
@[irreducible] def overflowBound : Nat := twoTo 1024 - twoTo 970

namespace Number

/-- Whether a number is a double or can become one. -/
def fitsDouble : Number → Bool
  | whole n => n.natAbs < overflowBound
  | real _ => true

/-- An operation that keeps whole numbers whole, with a check. -/
def combine? (op : Number → Number → Number) : Number → Number → Except Overflow Number
  | whole a, whole b => .ok (op (whole a) (whole b))
  | a, b => if a.fitsDouble && b.fitsDouble then .ok (op a b) else .error .operand

/-- The quotient, with a check. -/
def divide? : Number → Number → Except Overflow Number
  | whole a, whole b =>
    if b ≠ 0 ∧ overflowBound * b.natAbs ≤ a.natAbs then .error .quotient
    else .ok (whole a / whole b)
  | a, b => combine? (· / ·) a b

end Number

/-- A number, or the first overflow on the way to it. -/
abbrev Checked := Except Overflow Number

namespace Checked

/-- An operation on numbers that were computed with a check. -/
def lift (op : Number → Number → Except Overflow Number) (a b : Checked) : Checked := do
  op (← a) (← b)

/-- A comparison of numbers, which fails where there is no number. -/
def compare (rel : Number → Number → Bool) : Checked → Checked → Bool
  | .ok a, .ok b => rel a b
  | _, _ => false

/-- Rounds to an integer by a rule for numbers; an overflow counts as zero. -/
def roundBy (rule : Number → Int) : Checked → Int
  | .ok a => rule a
  | .error _ => 0

instance : Scalar Checked where
  add := lift (Number.combine? (· + ·))
  sub := lift (Number.combine? (· - ·))
  mul := lift (Number.combine? (· * ·))
  div := lift Number.divide?
  neg := Except.map (- ·)
  lt a b := compare Number.lt a b = true
  le a b := compare Number.le a b = true
  ofScientific m s e := .ok (OfScientific.ofScientific m s e)
  intCast n := .ok (.whole n)
  decideLT _ _ := inferInstanceAs (Decidable (_ = true))
  decideLE _ _ := inferInstanceAs (Decidable (_ = true))
  floor := roundBy Scalar.floor
  ceil := roundBy Scalar.ceil

/-- The first overflow among some numbers. -/
def overflow? (numbers : List Checked) : Option Overflow :=
  numbers.findSome? fun
    | .ok _ => none
    | .error o => some o

end Checked

end Tromp
