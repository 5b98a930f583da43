import Tromp.Arithmetic.Scalar
import Tromp.Arithmetic.Binary

/-!
# Numbers as documents write them

A number is either whole or a double.  Sums, differences, products and negations of whole numbers
are whole, and exact; a quotient of whole numbers is the nearest double; as soon as a double takes
part the result is a double.  Comparison is exact between the two kinds.

The difference shows in print: the whole number three is `3`, the double is `3.0`.
-/

namespace Tromp

/-- A whole number or a double. -/
inductive Number where
  | whole (n : Int)
  | real (x : Float)
deriving Inhabited

namespace Number

/-- The nearest double. -/
def toFloat : Number → Float
  | whole n => Binary.nearest n
  | real x => x

/-- An operation that keeps whole numbers whole. -/
def combine (onInt : Int → Int → Int) (onFloat : Float → Float → Float) : Number → Number → Number
  | whole a, whole b => whole (onInt a b)
  | a, b => real (onFloat a.toFloat b.toFloat)

/-- The quotient is a double, also of whole numbers. -/
def divide : Number → Number → Number
  | whole a, whole b => real (Binary.quotient a b)
  | a, b => real (a.toFloat / b.toFloat)

/-- The negated number. -/
def negate : Number → Number
  | whole a => whole (-a)
  | real x => real (-x)

/-- The order of two numbers; none when one of them is not a number. -/
def order? : Number → Number → Option Ordering
  | whole a, whole b => some (compare a b)
  | whole a, real y => withDouble a y
  | real x, whole b => (withDouble b x).map Ordering.swap
  | real x, real y =>
    if x < y then some .lt else if y < x then some .gt else if x == y then some .eq else none
where
  /-- The order of a whole number and a double. -/
  withDouble (a : Int) (y : Float) : Option Ordering :=
    match Binary.ofFloat? y with
    | some b => some (Binary.compareInt a b)
    | none => if y.isNaN then none else if 0 < y then some .lt else some .gt

/-- Whether the first number is smaller. -/
def lt (a b : Number) : Bool := a.order? b == some .lt

/-- Whether the first number is smaller, or equal. -/
def le (a b : Number) : Bool := a.order? b == some .lt || a.order? b == some .eq

/-- Whether a number is finite. -/
def isFinite : Number → Bool
  | whole _ => true
  | real x => x.isFinite

/-- An integer that stands for an infinity: it lies beyond every finite double. -/
def beyond : Int := twoTo 1024

/-- Rounds to an integer by a rule for finite doubles.  An infinity lies beyond every finite
double, and what is not a number counts as zero. -/
def roundBy (rule : Binary → Int) : Number → Int
  | whole n => n
  | real x =>
    match Binary.ofFloat? x with
    | some b => rule b
    | none => if x.isNaN then 0 else if 0 < x then beyond else -beyond

instance : Scalar Number where
  add := combine (· + ·) (· + ·)
  sub := combine (· - ·) (· - ·)
  mul := combine (· * ·) (· * ·)
  div := divide
  neg := negate
  lt a b := a.lt b = true
  le a b := a.le b = true
  ofScientific m s e := real (Float.ofScientific m s e)
  intCast := whole
  decideLT _ _ := inferInstanceAs (Decidable (_ = true))
  decideLE _ _ := inferInstanceAs (Decidable (_ = true))
  floor := roundBy Binary.floor
  ceil := roundBy Binary.ceil

end Number

end Tromp
