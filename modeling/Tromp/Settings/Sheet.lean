import Tromp.Settings.Field

/-!
# Settings sheets

A sheet has a value for every field of the settings, as it was given or else by default.  Few
conditions are put on it, and they are checked in a fixed order, so that the first that fails is
reported: sizes are positive, margins are not negative, the palette is not empty, a choice is one of
the words it is among.  A value of any kind that meets the conditions is kept as it is.
-/

namespace Tromp

/-- The two kinds of settings. -/
inductive SettingsKind where
  | layout
  | rendering
deriving DecidableEq, Repr

/-- The name of a kind of settings in messages. -/
def SettingsKind.name : SettingsKind → String
  | layout => "LayoutConfig"
  | rendering => "RenderConfig"

/-- The fields of a kind of settings. -/
def SettingsKind.fields : SettingsKind → List Field
  | layout => Field.ofLayout
  | rendering => Field.ofRendering

/-- Why settings are refused. -/
inductive SettingsFault (α : Type) where
  /-- A size is not positive. -/
  | notPositive (field : Field) (given : Value α)
  /-- A margin is negative. -/
  | isNegative (field : Field) (given : Value α)
  /-- A value cannot be compared with zero, by the sign of a comparison. -/
  | notOrdered (sign : String) (given : Value α)
  | emptyPalette
  /-- A choice is none of the words it has to be among. -/
  | notAmong (field : Field) (words : List String) (given : Value α)
  /-- The palette has no parts. -/
  | noParts (given : Value α)
  /-- A value is of the wrong kind for its field. -/
  | wrongKind (field : Field) (given : Value α)
  /-- No field has the name. -/
  | unknownField (kind : SettingsKind) (name : String)

namespace SettingsFault

/-- The text of a fault. -/
def message : SettingsFault Number → String
  | notPositive field given => field.name ++ " must be positive, got " ++ given.literal
  | isNegative field given => field.name ++ " must not be negative, got " ++ given.literal
  | notOrdered sign given =>
    quoted sign ++ " not supported between instances of " ++ quoted given.kindWord ++
      " and 'int'"
  | emptyPalette => "the color palette is empty"
  | notAmong field words given =>
    field.name ++ " must be one of (" ++ ", ".intercalate (words.map quoted) ++ "), got " ++
      given.literal
  | noParts given => quoted given.kindWord ++ " object is not iterable"
  | wrongKind field given => field.name ++ " cannot be " ++ given.literal
  | unknownField kind name =>
    kind.name ++ ".__init__() got an unexpected keyword argument " ++ quoted name

end SettingsFault

/-- Reads values given to fields by their exact names. -/
def assignmentNamed {α : Type} (kind : SettingsKind) (values : List (String × Value α)) :
    Except (SettingsFault α) (Assignment α) :=
  values.mapM fun entry =>
    match Field.named? kind.fields entry.1 with
    | some field => .ok (field, entry.2)
    | none => .error (.unknownField kind entry.1)

/-- A value for every field. -/
structure Sheet (α : Type) where
  kind : SettingsKind
  value : Field → Value α

namespace Sheet

variable {α : Type} [Scalar α]

/-- Refuses a size that is not positive. -/
def requirePositive (s : Sheet α) (field : Field) : Except (SettingsFault α) Unit :=
  match (s.value field).number? with
  | some x => if x ≤ Scalar.zero then .error (.notPositive field (s.value field)) else .ok ()
  | none => .error (.notOrdered "<=" (s.value field))

/-- Refuses a negative margin. -/
def requireNonNegative (s : Sheet α) (field : Field) : Except (SettingsFault α) Unit :=
  match (s.value field).number? with
  | some x => if x < Scalar.zero then .error (.isNegative field (s.value field)) else .ok ()
  | none => .error (.notOrdered "<" (s.value field))

omit [Scalar α] in
/-- Refuses a value that is none of some words. -/
def requireAmong (s : Sheet α) (field : Field) (words : List String) :
    Except (SettingsFault α) Unit :=
  if (s.value field).text?.any words.contains then .ok ()
  else .error (.notAmong field words (s.value field))

/-- Checks the conditions on the fields of the layout. -/
def checkLayout (s : Sheet α) : Except (SettingsFault α) Unit := do
  Field.sizes.forM s.requirePositive
  Field.margins.forM s.requireNonNegative
  if !(s.value .colors).isYes then throw .emptyPalette
  s.requireAmong .variableLabels (VariableLabels.all.map (·.word))
  if (s.value .colors).parts?.isNone then throw (.noParts (s.value .colors))

/-- Checks the conditions on all fields. -/
def check (s : Sheet α) : Except (SettingsFault α) Unit := do
  s.checkLayout
  if s.kind = .rendering then s.requireAmong .anchor (Anchor.all.map (·.word))

omit [Scalar α] in
/-- The sheet with the parts of its palette in a list. -/
def listPalette (s : Sheet α) : Sheet α :=
  { s with value := fun field =>
      if field = .colors then .list ((s.value .colors).parts?.getD []) else s.value field }

/-- The sheet of the values given to some fields. -/
def build (kind : SettingsKind) (given : Field → Option (Value α)) :
    Except (SettingsFault α) (Sheet α) := do
  let s : Sheet α := ⟨kind, fun field => (given field).getD field.default⟩
  s.check
  return s.listPalette

/-- The sheet with new values for some fields. -/
def replace (s : Sheet α) (changes : Assignment α) : Except (SettingsFault α) (Sheet α) :=
  build s.kind fun field => (changes.get? field).getD (s.value field)

/-- The sheet of loose options. -/
def ofOptions (kind : SettingsKind) (options : Options α) : Except (SettingsFault α) (Sheet α) :=
  build kind (options.assignment kind.fields).get?

end Sheet

namespace Sheet

variable {α : Type}

/-- The text of a field. -/
def text (s : Sheet α) (field : Field) : Except (SettingsFault α) String :=
  match (s.value field).text? with
  | some t => .ok t
  | none => .error (.wrongKind field (s.value field))

/-- The texts of a field. -/
def texts (s : Sheet α) (field : Field) : Except (SettingsFault α) (List String) :=
  match (s.value field).parts?.bind fun parts => parts.mapM Value.text? with
  | some ts => .ok ts
  | none => .error (.wrongKind field (s.value field))

/-- The choice of a field. -/
def choice {γ : Type} (s : Sheet α) (field : Field) (all : List γ) (word : γ → String) :
    Except (SettingsFault α) γ :=
  match all.find? fun c => (s.value field).text? == some (word c) with
  | some c => .ok c
  | none => .error (.notAmong field (all.map word) (s.value field))

variable [Scalar α]

/-- The number of a field. -/
def number (s : Sheet α) (field : Field) : Except (SettingsFault α) α :=
  match (s.value field).number? with
  | some x => .ok x
  | none => .error (.wrongKind field (s.value field))

/-- The flag of a field. -/
def flag (s : Sheet α) (field : Field) : Bool := (s.value field).isYes

end Sheet

end Tromp
