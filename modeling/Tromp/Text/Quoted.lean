import Tromp.Text.Printable

/-!
# Quoted texts

Messages quote the texts they speak of.  A quoted text stands between apostrophes, or between
quotation marks when it holds an apostrophe and no quotation mark.  The mark it stands between and
the backslash are written with a backslash before them, and characters that cannot be printed by
their code point.
-/

namespace Tromp

namespace Quoted

/-- A number in hexadecimal, padded with zeros to a width. -/
def hex (width n : Nat) : List Char :=
  let ds := Nat.toDigits 16 n
  List.replicate (width - ds.length) '0' ++ ds

/-- The mark that a text is quoted with. -/
def mark (cs : List Char) : Char := if '\'' ∈ cs ∧ '"' ∉ cs then '"' else '\''

/-- How a character is written between marks. -/
def escape (mark c : Char) : List Char :=
  if c = mark ∨ c = '\\' then ['\\', c]
  else if c = '\n' then ['\\', 'n']
  else if c = '\r' then ['\\', 'r']
  else if c = '\t' then ['\\', 't']
  else if isPrintable c then [c]
  else if c.toNat < 0x100 then '\\' :: 'x' :: hex 2 c.toNat
  else if c.toNat < 0x10000 then '\\' :: 'u' :: hex 4 c.toNat
  else '\\' :: 'U' :: hex 8 c.toNat

/-- The quoted form of a list of characters. -/
def encode (cs : List Char) : List Char :=
  let m := mark cs
  m :: (cs.flatMap (escape m) ++ [m])

end Quoted

/-- The quoted form of a text. -/
def quoted (s : String) : String := String.ofList (Quoted.encode s.toList)

/-- The quoted form of an optional text. -/
def quotedOption : Option String → String
  | some s => quoted s
  | none => "None"

/-- The text of a truth value in messages. -/
def flagText (b : Bool) : String := if b then "True" else "False"

end Tromp
