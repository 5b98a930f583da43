import Tromp.Storage.Path

/-!
# Output formats

A diagram is written as an SVG document, as a PNG image, or as text.  The suffix of a path tells
which, in capitals or not.
-/

namespace Tromp

/-- The formats a diagram is written in. -/
inductive Format where
  | svg
  | png
  | ascii
deriving DecidableEq, Repr

namespace Format

/-- All formats. -/
def all : List Format := [svg, png, ascii]

/-- The word for a format. -/
def word : Format → String
  | svg => "svg"
  | png => "png"
  | ascii => "ascii"

/-- The suffix of files in a format. -/
def suffix : Format → String
  | svg => ".svg"
  | png => ".png"
  | ascii => ".txt"

/-- The format that the suffix of a path tells. -/
def ofPath? (p : Path) : Option Format :=
  all.find? fun f => f.suffix.toList == p.suffix.toList.map Char.toLower

/-- The format for an output that may not tell any. -/
def guess (output : Option Path) : Format := (output.bind ofPath?).getD svg

end Format

end Tromp
