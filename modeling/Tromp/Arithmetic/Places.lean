import Tromp.Arithmetic.Number
import Tromp.Arithmetic.Shortest

/-!
# Decimal texts

How numbers are printed.  Whole numbers are printed in decimal, doubles in one of three ways: the
shortest text that reads back, a fixed number of places, or a fixed number of significant digits.
All of them start from the exact value of the double, and a tie goes to the even digit.
-/

namespace Tromp

namespace Places

/-- The natural number nearest to a quotient, a tie going to the even one. -/
def roundDiv (above below : Nat) : Nat :=
  let q := above / below
  let r := above % below
  if below < 2 * r || (2 * r == below && q % 2 == 1) then q + 1 else q

/-- The digits of a natural number. -/
def digits (n : Nat) : List Char := Nat.toDigits 10 n

/-- The text of a digit string whose last digit counts `10 ^ -places`. -/
def point (n : Nat) (places : Nat) : String :=
  let ds := digits n
  let padded := List.replicate (places + 1 - ds.length) '0' ++ ds
  let whole := padded.take (padded.length - places)
  let rest := padded.drop (padded.length - places)
  if places = 0 then String.ofList whole else String.ofList (whole ++ '.' :: rest)

/-- A sign, at least two digits. -/
def exponentText (e : Int) : String :=
  let ds := digits e.natAbs
  let padded := List.replicate (2 - ds.length) '0' ++ ds
  String.ofList ((if e < 0 then '-' else '+') :: padded)

/-- The digits without the zeros at their end. -/
def dropZeros (ds : List Char) : List Char := (ds.reverse.dropWhile (· == '0')).reverse

/-- The texts of the doubles that are no numbers. -/
def special (x : Float) : String := if x.isNaN then "nan" else if 0 < x then "inf" else "-inf"

/-- A minus sign where the sign bit is set. -/
def sign (b : Binary) : String := if b.negative then "-" else ""

end Places

open Places

namespace Binary

/-- The shortest decimal text that reads back: positional from `10 ^ -4` up to below `10 ^ 16`,
always with a point; otherwise with an exponent. -/
def shortestText (b : Binary) : String :=
  if b.mantissa = 0 then sign b ++ "0.0"
  else
    let (d, k) := Shortest.ofBinary b
    let all := digits d
    let ds := dropZeros all
    let e := k + all.length - 1
    let text :=
      if -4 ≤ e ∧ e < 16 then
        if e < 0 then "0." ++ String.ofList (List.replicate (-e - 1).toNat '0' ++ ds)
        else
          let size := e.toNat + 1
          let whole := ds.take size ++ List.replicate (size - ds.length) '0'
          let rest := if ds.length ≤ size then ['0'] else ds.drop size
          String.ofList (whole ++ '.' :: rest)
      else
        let lead := match ds with
          | [] => []
          | c :: [] => [c]
          | c :: rest => c :: '.' :: rest
        String.ofList lead ++ "e" ++ exponentText e
    sign b ++ text

/-- The value times `10 ^ places`, rounded to a natural number. -/
def scaledDigits (b : Binary) (places : Nat) : Nat :=
  roundDiv (b.mantissa * twoTo b.exponent.toNat * tenTo places) b.denominator

end Binary

/-- The text of a double: shortest digits, or the name of a value that is no number. -/
def doubleText (x : Float) : String :=
  match Binary.ofFloat? x with
  | some b => b.shortestText
  | none => special x

namespace Number

/-- The text of a number. -/
def text : Number → String
  | whole n => toString n
  | real x => doubleText x

/-- Rounds a double to the double nearest to the nearest thousandth; whole numbers stay. -/
def thousandths : Number → Number
  | whole n => whole n
  | real x =>
    match Binary.ofFloat? x with
    | none => real x
    | some b =>
      if 0 ≤ b.exponent then real x
      else
        let y := Float.ofScientific (b.scaledDigits 3) true 3
        real (if b.negative then -y else y)

/-- The text of a number with a fixed number of places. -/
def fixed (places : Nat) (a : Number) : String :=
  match Binary.ofFloat? a.toFloat with
  | none => special a.toFloat
  | some b => sign b ++ point (b.scaledDigits places) places

/-- The text of a number with at most `n + 1` significant digits, with an exponent where it is
below `-4` or above `n`, and without zeros at the end. -/
def general (n : Nat) (a : Number) : String :=
  match Binary.ofFloat? a.toFloat with
  | none => special a.toFloat
  | some b =>
    if b.mantissa = 0 then sign b ++ "0"
    else
      let value : Shortest.Ratio := ⟨b.mantissa * twoTo b.exponent.toNat, b.denominator⟩
      let first := Shortest.leadingExponent value
      let scaled := value.shift (n - first)
      let rounded := roundDiv scaled.above scaled.below
      let e := if (digits rounded).length = n + 1 then first else first + 1
      let ds := (digits rounded).take (n + 1)
      let text :=
        if e < -4 ∨ (n : Int) < e then
          match dropZeros ds with
          | [] => ""
          | c :: [] => String.ofList [c] ++ "e" ++ exponentText e
          | c :: rest => String.ofList (c :: '.' :: rest) ++ "e" ++ exponentText e
        else if e < 0 then
          "0." ++ String.ofList (List.replicate (-e - 1).toNat '0' ++ dropZeros ds)
        else
          let size := e.toNat + 1
          match dropZeros (ds.drop size) with
          | [] => String.ofList (ds.take size)
          | rest => String.ofList (ds.take size ++ '.' :: rest)
      sign b ++ text

end Number

end Tromp
