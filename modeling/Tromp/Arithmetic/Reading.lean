import Tromp.Arithmetic.Binary
import Tromp.Text.Blank
import Tromp.Text.Digit

/-!
# Reading numbers

Decimal texts are read with digits of any script, blanks around them and single underscores
between digits.  A double may be written with a fraction and an exponent, or by the names of the
infinities and of what is not a number; it is the double nearest to the exact decimal.
-/

namespace Tromp

namespace Reading

/-- The blanks allowed around a number; the information separators are not among them. -/
def isPadding (c : Char) : Bool := isBlank c && !(0x1C ≤ c.toNat && c.toNat ≤ 0x1F)

/-- A text without the padding at its ends. -/
def trim (cs : List Char) : List Char :=
  ((cs.dropWhile isPadding).reverse.dropWhile isPadding).reverse

/-- Takes the sign off; true for minus. -/
def sign : List Char → Bool × List Char
  | '-' :: rest => (true, rest)
  | '+' :: rest => (false, rest)
  | cs => (false, cs)

/-- A text without its underscores, each of which has to stand between two digits. -/
def joinDigits : List Char → Option (List Char)
  | [] => some []
  | '_' :: _ => none
  | c :: '_' :: d :: rest =>
    if isDigit c && isDigit d then (joinDigits (d :: rest)).map (c :: ·) else none
  | c :: rest => (joinDigits rest).map (c :: ·)

/-- The text with every letter of ASCII in lower case. -/
def lower (cs : List Char) : List Char := cs.map Char.toLower

/-- The double nearest to `n · 10 ^ e`.  Exponents far outside the range of doubles are not
carried out. -/
def decimal (n : Nat) (e : Int) : Float :=
  let size : Int := (Nat.toDigits 10 n).length + e
  if n = 0 then 0.0
  else if 400 < size then Float.ofScientific 1 false 400
  else if size < -400 then 0.0
  else if 0 ≤ e then Float.ofScientific n false e.toNat
  else Float.ofScientific n true (-e).toNat

/-- Reads the digits of an exponent, with a sign. -/
def exponent? (cs : List Char) : Option Int :=
  let (minus, ds) := sign cs
  if ds.isEmpty || !ds.all isDigit then none
  else
    let n : Int := digitsValue ds
    some (if minus then -n else n)

/-- Reads an unsigned decimal without underscores: digits with at most one point, at least one
digit, and an optional exponent. -/
def unsigned? (cs : List Char) : Option Float :=
  let (whole, rest) := cs.span isDigit
  let (fraction, rest) := match rest with
    | '.' :: more => more.span isDigit
    | _ => ([], rest)
  if whole.isEmpty && fraction.isEmpty then none
  else
    let value (e : Int) := decimal (digitsValue (whole ++ fraction)) (e - fraction.length)
    match rest with
    | [] => some (value 0)
    | c :: more => if c = 'e' ∨ c = 'E' then (exponent? more).map value else none

end Reading

open Reading

/-- Reads a double. -/
def readDouble? (s : String) : Option Float :=
  let (minus, body) := sign (trim s.toList)
  let magnitude :=
    let word := String.ofList (lower body)
    if word = "inf" ∨ word = "infinity" then some (1.0 / 0.0)
    else if word = "nan" then some (0.0 / 0.0)
    else (joinDigits body).bind unsigned?
  magnitude.map fun x => if minus then -x else x

/-- A text that does not write a number. -/
structure NoNumber where
  text : String
deriving DecidableEq, Repr

/-- Reads a double, or reports the text. -/
def parseDouble (s : String) : Except NoNumber Float :=
  match readDouble? s with
  | some x => .ok x
  | none => .error ⟨s⟩

/-- Reads an integer. -/
def readInt? (s : String) : Option Int :=
  let (minus, body) := sign (trim s.toList)
  (joinDigits body).bind fun ds =>
    if ds.isEmpty || !ds.all isDigit || digitLimit < ds.length then none
    else
      let n : Int := digitsValue ds
      some (if minus then -n else n)

end Tromp
