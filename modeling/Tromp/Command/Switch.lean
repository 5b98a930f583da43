import Tromp.Diagram.Format
import Tromp.Settings.Render
import Tromp.Storage.Store

/-!
# Switches

The switches of the command line.  Each has a long spelling, after two dashes, and most have a short
one, after a single dash.  Some take a value.
-/

namespace Tromp

/-- The switches. -/
inductive Switch where
  | help
  | input
  | output
  | format
  | width
  | height
  | labels
  | showSymbols
  | lenient
  | anchor
  | background
  | verbose
deriving DecidableEq, Repr

namespace Switch

/-- All switches. -/
def all : List Switch :=
  [help, input, output, format, width, height, labels, showSymbols, lenient, anchor, background,
    verbose]

/-- The spellings of a switch. -/
def spellings : Switch → List String
  | help => ["-h", "--help"]
  | input => ["-i", "--input"]
  | output => ["-o", "--output"]
  | format => ["-f", "--format"]
  | width => ["-W", "--width"]
  | height => ["-H", "--height"]
  | labels => ["-l", "--labels"]
  | showSymbols => ["--show-app-symbols"]
  | lenient => ["--lenient"]
  | anchor => ["--anchor"]
  | background => ["--background"]
  | verbose => ["-v", "--verbose"]

/-- The name of a switch in messages. -/
def title (s : Switch) : String := "/".intercalate s.spellings

/-- Whether a switch takes a value. -/
def takesValue : Switch → Bool
  | input | output | format | width | height | anchor | background => true
  | help | labels | showSymbols | lenient | verbose => false

/-- What a switch is for. -/
def purpose : Switch → String
  | help => "show this help message and exit"
  | input => "file with one expression per line ('#' and '//' start comments)"
  | output => "output file, or directory when there are several expressions"
  | format => "output format (default: from the output suffix, else svg)"
  | width => "canvas width in pixels"
  | height => "canvas height in pixels"
  | labels => "show names, numerals and booleans"
  | showSymbols => "mark application junctions with a dot"
  | lenient => "recover from syntax errors"
  | anchor => "place of the diagram on the canvas"
  | background => "background color"
  | verbose => "-v for progress, -vv for layout details"

/-- Every spelling with its switch. -/
def table : List (String × Switch) := all.flatMap fun s => s.spellings.map (·, s)

/-- The switch of a spelling. -/
def spelled? (spelling : String) : Option Switch := table.lookup spelling

/-- The switch that a character spells after a single dash. -/
def short? (c : Char) : Option Switch := spelled? (String.ofList ['-', c])

end Switch

/-- Why a command line is refused. -/
inductive UsageFault where
  /-- A beginning of several long spellings. -/
  | ambiguous (word : String) (spellings : List String)
  /-- A switch without its value. -/
  | valueMissing (s : Switch)
  /-- A value for a switch that takes none. -/
  | valueIgnored (s : Switch) (value : String)
  | noInteger (s : Switch) (value : String)
  /-- A value that is none of the choices. -/
  | noChoice (s : Switch) (value : String) (choices : List String)
  /-- Words that nothing is made of. -/
  | unrecognized (words : List String)
  /-- Neither an expression nor an input file is given. -/
  | nothingGiven
  /-- The input file cannot be read. -/
  | unreadable (path : Path) (reason : String)
  | noExpression
  /-- An image cannot be printed. -/
  | pathMissing
  | settings (fault : SettingsFault Number)

namespace UsageFault

/-- A text about a switch. -/
def about (s : Switch) (text : String) : String := "argument " ++ s.title ++ ": " ++ text

/-- The text of a fault. -/
def message : UsageFault → String
  | ambiguous word spellings =>
    "ambiguous option: " ++ word ++ " could match " ++ ", ".intercalate spellings
  | valueMissing s => about s "expected one argument"
  | valueIgnored s value => about s ("ignored explicit argument " ++ quoted value)
  | noInteger s value => about s ("invalid int value: " ++ quoted value)
  | noChoice s value choices =>
    about s ("invalid choice: " ++ quoted value ++ " (choose from " ++
      ", ".intercalate (choices.map quoted) ++ ")")
  | unrecognized words => "unrecognized arguments: " ++ " ".intercalate words
  | nothingGiven => "give an expression or an input file"
  | unreadable path reason => "cannot read " ++ path.text ++ ": " ++ reason
  | noExpression => "no expression to draw"
  | pathMissing => "PNG output needs an output path (-o)"
  | settings fault => fault.message

end UsageFault

end Tromp
