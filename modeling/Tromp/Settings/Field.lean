import Tromp.Settings.Choice
import Tromp.Text.Value

/-!
# Named options

Settings are given as named values.  Every field of the settings has one name, in lower case with
underscores between its words.  Loose options may spell a name with capitals instead
(`unitSize`): an underscore is put before every capital letter that is not the first character,
and the whole is taken in lower case.
-/

namespace Tromp

/-- The fields of the settings. -/
inductive Field where
  | unitSize
  | lineWidth
  | padding
  | width
  | height
  | fitMargin
  | binderOverhang
  | colors
  | freeColor
  | textColor
  | operatorColor
  | numeralColor
  | labelPadding
  | labelStep
  | showLabels
  | variableLabels
  | hideApplicationSymbols
  | backgroundColor
  | anchor
deriving DecidableEq, Repr

namespace Field

/-- The fields that decide how a term is laid out. -/
def ofLayout : List Field :=
  [unitSize, lineWidth, padding, width, height, fitMargin, binderOverhang, colors, freeColor,
    textColor, operatorColor, numeralColor, labelPadding, labelStep, showLabels, variableLabels,
    hideApplicationSymbols]

/-- The fields that decide how a layout is rendered: those of the layout and two more. -/
def ofRendering : List Field := ofLayout ++ [backgroundColor, anchor]

/-- The name of a field. -/
def name : Field → String
  | unitSize => "unit_size"
  | lineWidth => "line_width"
  | padding => "padding"
  | width => "width"
  | height => "height"
  | fitMargin => "fit_margin"
  | binderOverhang => "binder_overhang"
  | colors => "colors"
  | freeColor => "free_color"
  | textColor => "text_color"
  | operatorColor => "operator_color"
  | numeralColor => "church_numeral_color"
  | labelPadding => "label_padding"
  | labelStep => "label_collision_offset"
  | showLabels => "show_labels"
  | variableLabels => "variable_labels"
  | hideApplicationSymbols => "hide_application_symbols"
  | backgroundColor => "background_color"
  | anchor => "anchor"

/-- The fields that have to be positive. -/
def sizes : List Field := [unitSize, lineWidth, width, height]

/-- The fields that may not be negative. -/
def margins : List Field := [padding, fitMargin, binderOverhang, labelPadding]

/-- The default palette. -/
def palette : List String :=
  ["#ff5555", "#8be9fd", "#50fa7b", "#ffb86c", "#bd93f9", "#ff79c6", "#f1fa8c", "#5af78e",
    "#57c7ff", "#ff6ac1"]

/-- The value of a field that is not named. -/
def default {α : Type} [Scalar α] : Field → Value α
  | unitSize => .number (Scalar.ofNat 30)
  | lineWidth => .number (Scalar.ofNat 3)
  | padding => .number (Scalar.ofNat 60)
  | width => .number (Scalar.ofNat 1200)
  | height => .number (Scalar.ofNat 800)
  | fitMargin => .number (Scalar.ofNat 100)
  | binderOverhang => .number 0.5
  | colors => .list (palette.map .text)
  | freeColor => .text "#ff5555"
  | textColor => .text "#f8f8f2"
  | operatorColor => .text "#ffb86c"
  | numeralColor => .text "#bd93f9"
  | labelPadding => .number (Scalar.ofNat 5)
  | labelStep => .number (Scalar.ofNat 15)
  | showLabels => .flag false
  | variableLabels => .text VariableLabels.name.word
  | hideApplicationSymbols => .flag true
  | backgroundColor => .text "#000000"
  | anchor => .text Anchor.center.word

/-- The field of a name among some fields. -/
def named? (fields : List Field) (name : String) : Option Field :=
  fields.find? fun f => f.name == name

end Field

/-- Values given to fields, each field as often as it was named. -/
abbrev Assignment (α : Type) := List (Field × Value α)

/-- The value given to a field last. -/
def Assignment.get? {α : Type} (as : Assignment α) (field : Field) : Option (Value α) :=
  (as.reverse.find? fun a => a.1 == field).map (·.2)

/-- The lower case of a letter in an option's name.  Of the letters outside ASCII only the Kelvin
sign has a lower case inside, so the others are left alone: no field has them in its name. -/
def lowerLetter (c : Char) : Char := if c = '\u212a' then 'k' else c.toLower

/-- The characters after the first, with an underscore before every capital. -/
def snakeTail : List Char → List Char
  | [] => []
  | c :: rest => if c.isUpper then '_' :: lowerLetter c :: snakeTail rest
    else lowerLetter c :: snakeTail rest

/-- A name in lower case, with underscores between the words that capitals begin. -/
def snakeCase (key : String) : String :=
  match key.toList with
  | [] => ""
  | c :: rest => String.ofList (lowerLetter c :: snakeTail rest)

/-- Loose options: one whose value is nothing says nothing. -/
abbrev Options (α : Type) := List (String × Value α)

namespace Options

variable {α : Type}

/-- Options as a table: a key named twice keeps its place and takes the later value. -/
def ofPairs (pairs : Options α) : Options α :=
  pairs.foldl (fun table entry =>
    if table.any (·.1 == entry.1) then
      table.map fun old => if old.1 == entry.1 then entry else old
    else table ++ [entry]) []

/-- What loose options assign to some fields, keys that name none of them being ignored. -/
def assignment (fields : List Field) (options : Options α) : Assignment α :=
  options.filterMap fun entry =>
    match entry.2 with
    | .nothing => none
    | value => (Field.named? fields (snakeCase entry.1)).map (·, value)

end Options

end Tromp
