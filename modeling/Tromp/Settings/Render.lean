import Tromp.Settings.Layout

/-!
# Render settings

The settings of a rendered document: those of its layout, the colour of the canvas, and where the
diagram stands on it.
-/

namespace Tromp

/-- How a layout is rendered. -/
structure RenderSettings (α : Type) extends LayoutSettings α where
  /-- The fill of the whole canvas. -/
  backgroundColor : String
  anchor : Anchor
deriving Inhabited

namespace RenderSettings

variable {α : Type} [Scalar α]

/-- Reads settings from a sheet. -/
def ofSheet (s : Sheet α) : Except (SettingsFault α) (RenderSettings α) := do
  return { ← LayoutSettings.ofSheet s with
           backgroundColor := ← s.text .backgroundColor
           anchor := ← s.choice .anchor Anchor.all Anchor.word }

/-- Builds settings from the values given to their fields. -/
def build (given : Field → Option (Value α)) : Except (SettingsFault α) (RenderSettings α) := do
  ofSheet (← Sheet.build .rendering given)

/-- The settings of loose options. -/
def ofOptions (options : Options α) : Except (SettingsFault α) (RenderSettings α) := do
  ofSheet (← Sheet.ofOptions .rendering options)

end RenderSettings

end Tromp
