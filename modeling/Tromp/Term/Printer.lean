import Tromp.Term.Tree

/-!
# Printing terms

A term is printed as source text with its own names, an absent name as `_`.  Abstractions reach as
far to the right as they can, and applications associate to the left, so parentheses stand around
an abstraction that is a function or an argument and around an application that is an argument.
-/

namespace Tromp

namespace Term

/-- Where a term stands: on its own, as a function, or as an argument. -/
inductive Place where
  | top
  | function
  | argument
deriving DecidableEq, Repr

/-- The text in parentheses where they are needed. -/
def parenthesize (needed : Bool) (text : String) : String :=
  if needed then "(" ++ text ++ ")" else text

/-- The printed form of an optional name. -/
def nameText (name : Option String) : String := name.getD "_"

/-- The source text of a term that stands at a place. -/
def prettyAt (place : Place) : Term → String
  | .var name _ _ => nameText name
  | .lam name _ body =>
    parenthesize (place != .top) ("λ" ++ nameText name ++ "." ++ prettyAt .top body)
  | .app f a =>
    parenthesize (place == .argument) (prettyAt .function f ++ " " ++ prettyAt .argument a)

/-- The source text of a term. -/
def pretty (t : Term) : String := prettyAt .top t

end Term

end Tromp
