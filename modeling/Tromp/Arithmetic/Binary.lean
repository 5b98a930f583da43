/-!
# Doubles as exact dyadic numbers

A finite double is exactly `± m · 2 ^ e` for a natural number `m` and an integer `e`.  Whatever
has to be exact about doubles (comparing them with integers, printing them, rounding them to
decimal places) is done on that form, in natural numbers.  The way back is a correctly rounded
quotient of natural numbers.
-/

namespace Tromp

/-- A power of two. -/
def twoTo (n : Nat) : Nat := Nat.pow 2 n

/-- A power of ten. -/
def tenTo (n : Nat) : Nat := Nat.pow 10 n

/-- The number `± mantissa · 2 ^ exponent`. -/
structure Binary where
  /-- Whether the sign bit is set, also of a zero. -/
  negative : Bool
  mantissa : Nat
  exponent : Int
deriving DecidableEq, Repr

namespace Binary

/-- The exact value of a double; none for the infinities and for what is not a number. -/
def ofFloat? (x : Float) : Option Binary :=
  let bits : Nat := x.toBits.toNat
  let negative := decide (twoTo 63 ≤ bits)
  let field : Nat := bits / twoTo 52 % twoTo 11
  let fraction := bits % twoTo 52
  if field = twoTo 11 - 1 then none
  else if field = 0 then some ⟨negative, fraction, -1074⟩
  else some ⟨negative, twoTo 52 + fraction, (field : Int) - 1075⟩

/-- The numerator of the value written over `2 ^ (-exponent)`, or the whole value where the
exponent is not negative. -/
def numerator (b : Binary) : Int :=
  let n := b.mantissa * twoTo b.exponent.toNat
  if b.negative then -(n : Int) else n

/-- The denominator that goes with `numerator`. -/
def denominator (b : Binary) : Nat := twoTo (-b.exponent).toNat

/-- The greatest integer that is not above the value. -/
def floor (b : Binary) : Int := b.numerator.fdiv b.denominator

/-- The least integer that is not below the value. -/
def ceil (b : Binary) : Int := -(-b.numerator).fdiv b.denominator

/-- Compares an integer with the value, exactly. -/
def compareInt (n : Int) (b : Binary) : Ordering := compare (n * b.denominator) b.numerator

/-- The double nearest to an integer, a tie going to the even neighbour. -/
def nearest (n : Int) : Float :=
  let x := Float.ofScientific n.natAbs false 0
  if n < 0 then -x else x

/-- The double nearest to a quotient of integers.  Integers that are doubles are divided as such;
otherwise the quotient is cut to more bits than a double holds, the last of which tells whether
anything was cut off. -/
def quotient (a b : Int) : Float :=
  if b = 0 ∨ (a.natAbs ≤ twoTo 53 ∧ b.natAbs ≤ twoTo 53) then nearest a / nearest b
  else
    let n := a.natAbs
    let d := b.natAbs
    let shift : Int := 56 + d.log2 - n.log2
    let above := n * twoTo shift.toNat
    let below := d * twoTo (-shift).toNat
    let whole := above / below
    let kept := if above % below = 0 then whole else whole ||| 1
    let x := (nearest kept).scaleB (-shift)
    if (a < 0) = (b < 0) then x else -x

end Binary

end Tromp
