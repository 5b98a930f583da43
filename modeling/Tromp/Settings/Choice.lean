/-!
# Choices

Two of the settings are choices, each among a few words.
-/

namespace Tromp

/-- What the label of a variable shows. -/
inductive VariableLabels where
  | name
  | index
deriving DecidableEq, Repr, Inhabited

namespace VariableLabels

/-- All choices. -/
def all : List VariableLabels := [name, index]

/-- The word for a choice. -/
def word : VariableLabels → String
  | name => "name"
  | index => "index"

end VariableLabels

/-- Where the diagram stands on the canvas. -/
inductive Anchor where
  /-- In the middle of the canvas. -/
  | center
  /-- At the padding, from the upper left corner. -/
  | topLeft
deriving DecidableEq, Repr, Inhabited

namespace Anchor

/-- All choices. -/
def all : List Anchor := [center, topLeft]

/-- The word for a choice. -/
def word : Anchor → String
  | center => "center"
  | topLeft => "top-left"

end Anchor

end Tromp
