/-!
# Paths

A path starts in the working folder or at the root of all folders and goes on through parts.  Empty
parts and parts that stay where they are carry no meaning and are dropped when a path is read, so a
path is printed in one way however it was written.  Two slashes in front are a start of their own.
-/

namespace Tromp

/-- Where a path starts. -/
inductive PathStart where
  | workingFolder
  | root
  | doubleRoot
deriving DecidableEq, Repr

namespace PathStart

/-- What a path with a start begins with. -/
def text : PathStart → String
  | workingFolder => ""
  | root => "/"
  | doubleRoot => "//"

end PathStart

/-- A path to a file or a folder. -/
structure Path where
  start : PathStart
  parts : List String
deriving DecidableEq, Repr

namespace Path

/-- The pieces of a text between slashes. -/
def pieces : List Char → List (List Char)
  | [] => [[]]
  | c :: cs =>
    if c = '/' then [] :: pieces cs
    else
      match pieces cs with
      | [] => [[c]]
      | p :: ps => (c :: p) :: ps

/-- Reads a path. -/
def ofString (s : String) : Path :=
  let cs := s.toList
  let start := match (cs.takeWhile (· == '/')).length with
    | 0 => PathStart.workingFolder
    | 2 => .doubleRoot
    | _ => .root
  let kept := (pieces cs).filter fun p => p != [] && p != ['.']
  ⟨start, kept.map String.ofList⟩

/-- The text of a path; the working folder itself is a dot. -/
def text (p : Path) : String :=
  let s := p.start.text ++ "/".intercalate p.parts
  if s.isEmpty then "." else s

/-- The path of an entry of a folder. -/
def child (p : Path) (name : String) : Path := { p with parts := p.parts ++ [name] }

/-- The folder that a path lies in, or the path itself where it has no parts. -/
def parent (p : Path) : Path := { p with parts := p.parts.dropLast }

/-- The last part. -/
def name (p : Path) : String := p.parts.getLast?.getD ""

/-- The end of the last part from its last dot on, where something stands before and after it. -/
def suffix (p : Path) : String :=
  let back := p.name.toList.reverse
  let ending := back.takeWhile (· != '.')
  match ending, back.drop ending.length with
  | _ :: _, '.' :: _ :: _ => String.ofList ('.' :: ending.reverse)
  | _, _ => ""

end Path

end Tromp
