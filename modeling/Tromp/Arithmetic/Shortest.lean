import Tromp.Arithmetic.Binary

/-!
# The fewest digits that read back

A double is written with the fewest significant digits that still read back to it.  The reals that
round to a double form an interval; the decimal grids with `1, 2, …, 17` digits are tried in turn,
and on each of them only the two neighbours of the exact value.  The first grid with a neighbour in
the interval wins, and of two neighbours the nearer, a tie going to the even digit.
-/

namespace Tromp

namespace Shortest

/-- A positive rational `above / below`. -/
structure Ratio where
  above : Nat
  below : Nat
deriving DecidableEq, Repr

/-- The rational multiplied by a power of ten. -/
def Ratio.shift (r : Ratio) (k : Int) : Ratio :=
  ⟨r.above * tenTo k.toNat, r.below * tenTo (-k).toNat⟩

/-- The value of a positive dyadic number and the ends of the interval of reals that round to it,
over one denominator.  The interval is narrower downward at a power of two, and its ends belong to
it exactly when the mantissa is even. -/
structure Rounding where
  low : Nat
  value : Nat
  high : Nat
  below : Nat
  closed : Bool
deriving DecidableEq, Repr

/-- The interval of the reals that round to a dyadic number. -/
def Rounding.ofBinary (b : Binary) : Rounding :=
  let scale := twoTo b.exponent.toNat
  let narrow := b.mantissa = twoTo 52 ∧ -1074 < b.exponent
  { low := (if narrow then 4 * b.mantissa - 1 else 4 * b.mantissa - 2) * scale
    value := 4 * b.mantissa * scale
    high := (4 * b.mantissa + 2) * scale
    below := 4 * twoTo (-b.exponent).toNat
    closed := b.mantissa % 2 = 0 }

/-- Whether the decimal `d · 10 ^ k` rounds to the value. -/
def Rounding.holds (r : Rounding) (d : Nat) (k : Int) : Bool :=
  let x := d * tenTo k.toNat * r.below
  let unit := tenTo (-k).toNat
  if r.closed then r.low * unit ≤ x && x ≤ r.high * unit
  else r.low * unit < x && x < r.high * unit

/-- The exponent of the first significant digit of a positive rational, looked for upward. -/
def leadingExponent (r : Ratio) : Int :=
  let start : Int := ((r.above.log2 : Int) - r.below.log2) * 1233 / 4096 - 2
  climb 8 start
where
  /-- The greatest exponent not above `e + fuel` whose power of ten is not above the rational. -/
  climb : Nat → Int → Int
    | 0, e => e
    | fuel + 1, e =>
      let next := r.shift (-(e + 1))
      if next.below ≤ next.above then climb fuel (e + 1) else e

/-- The better neighbour of the value on the grid of multiples of `10 ^ k`, if one reads back. -/
def Rounding.onGrid? (r : Rounding) (k : Int) : Option Nat :=
  let scaled := (Ratio.mk r.value r.below).shift (-k)
  let d := scaled.above / scaled.below
  let rest := scaled.above % scaled.below
  let up := decide (scaled.below < 2 * rest) || (2 * rest == scaled.below && d % 2 == 1)
  match r.holds d k, r.holds (d + 1) k with
  | true, true => some (if up then d + 1 else d)
  | true, false => some d
  | false, true => some (d + 1)
  | false, false => none

/-- The digits `d` and the exponent `k` of the shortest decimal `d · 10 ^ k`. -/
def ofBinary (b : Binary) : Nat × Int :=
  let r := Rounding.ofBinary b
  let top := leadingExponent ⟨r.value, r.below⟩
  search 17 top r
where
  /-- Tries ever finer grids; the seventeenth always has a hit. -/
  search : Nat → Int → Rounding → Nat × Int
    | 0, k, r => (r.value / r.below, k)
    | fuel + 1, k, r =>
      match r.onGrid? k with
      | some d => (d, k)
      | none => search fuel (k - 1) r

end Shortest

end Tromp
