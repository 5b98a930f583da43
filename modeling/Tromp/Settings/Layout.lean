import Tromp.Settings.Sheet

/-!
# Layout settings

The settings that decide how a term is laid out.  They are read from a sheet on which all
conditions are met.
-/

namespace Tromp

/-- How a term is laid out. -/
structure LayoutSettings (α : Type) where
  /-- Pixels per row before the diagram is fitted. -/
  unitSize : α
  /-- The width of the lines of variables and applications. -/
  lineWidth : α
  /-- The margin around the diagram. -/
  padding : α
  /-- The width of the canvas the diagram is fitted into. -/
  width : α
  /-- The height of that canvas. -/
  height : α
  /-- Pixels of the canvas that are kept free. -/
  fitMargin : α
  /-- How far, in rows, the bar of an abstraction sticks out of its body. -/
  binderOverhang : α
  /-- The colours that abstractions and applications take in turn. -/
  colors : List String
  freeColor : String
  textColor : String
  operatorColor : String
  numeralColor : String
  /-- Space kept free around labels. -/
  labelPadding : α
  /-- How far a label moves when it collides with another. -/
  labelStep : α
  showLabels : Bool
  variableLabels : VariableLabels
  /-- Whether the junctions of applications are left without a dot. -/
  hideApplicationSymbols : Bool
deriving Inhabited

namespace LayoutSettings

variable {α : Type} [Scalar α]

/-- Reads settings from a sheet. -/
def ofSheet (s : Sheet α) : Except (SettingsFault α) (LayoutSettings α) := do
  return { unitSize := ← s.number .unitSize
           lineWidth := ← s.number .lineWidth
           padding := ← s.number .padding
           width := ← s.number .width
           height := ← s.number .height
           fitMargin := ← s.number .fitMargin
           binderOverhang := ← s.number .binderOverhang
           colors := ← s.texts .colors
           freeColor := ← s.text .freeColor
           textColor := ← s.text .textColor
           operatorColor := ← s.text .operatorColor
           numeralColor := ← s.text .numeralColor
           labelPadding := ← s.number .labelPadding
           labelStep := ← s.number .labelStep
           showLabels := s.flag .showLabels
           variableLabels := ← s.choice .variableLabels VariableLabels.all VariableLabels.word
           hideApplicationSymbols := s.flag .hideApplicationSymbols }

/-- Builds settings from the values given to their fields. -/
def build (given : Field → Option (Value α)) : Except (SettingsFault α) (LayoutSettings α) := do
  ofSheet (← Sheet.build .layout given)

/-- The settings of loose options. -/
def ofOptions (options : Options α) : Except (SettingsFault α) (LayoutSettings α) := do
  ofSheet (← Sheet.ofOptions .layout options)

end LayoutSettings

end Tromp
