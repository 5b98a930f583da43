import Tromp.Drawing.Fault
import Tromp.Drawing.Labels
import Tromp.Drawing.Primitive
import Tromp.Settings.Layout

/-!
# The painter

The painter draws a term in its own frame.  Horizontally a layout unit is a column of two row
heights, vertically a row.

1.  A variable is one column wide and no row high.  Its line stands in the middle of the column and
    goes up from the baseline by `index + 1` rows, so that it ends on the bar of its abstraction.
2.  An abstraction is a bar on top of its body, which stands one row lower.
3.  An application puts its argument to the right of its function.  A bar joins the leftmost lines
    of both, one row below the deeper of them, and a filler brings the shallower one down to it.

The operands of `f₁ (f₂ (… (fₙ x)))` are all drawn in one frame: the functions from left to right,
then `x`, then the bars from the innermost application outward.  Colours are taken from the palette
in the order of drawing, and labels are placed in that order too, which is why the painter carries
a state; what was used up before a fault stays used up.
-/

namespace Tromp

/-- What the painter has used up: colours of the palette, and room for labels. -/
structure PaintState (α : Type) where
  colorIndex : Nat
  registry : LabelRegistry α

/-- A step of painting, which changes the state also where it fails. -/
abbrev Paint (α ε : Type) := ExceptT (StructuralFault ε) (StateM (PaintState α))

/-- What stays the same in one drawing: the settings, and the pixels of a row. -/
structure Painter (α : Type) where
  settings : LayoutSettings α
  unit : α

/-- Where a term is drawn. -/
structure Site (α : Type) where
  /-- The origin of the frame on the canvas, where labels are placed. -/
  x : α
  y : α
  /-- The colours of the abstractions around the term, innermost first. -/
  binders : List String
  /-- Whether the term is part of a numeral. -/
  inNumeral : Bool

/-- The site moved to the right. -/
def Site.right {α : Type} [Scalar α] (s : Site α) (dx : α) : Site α := { s with x := s.x + dx }

namespace PaintState

variable {α : Type}

/-- The state before anything is drawn. -/
def start (s : LayoutSettings α) : PaintState α := ⟨0, .empty s.labelPadding s.labelStep⟩

/-- The next colour of a palette, which starts over at its end. -/
def nextColor (colors : List String) (st : PaintState α) : String × PaintState α :=
  (colors.getD (st.colorIndex % colors.length) "", { st with colorIndex := st.colorIndex + 1 })

/-- The next so many colours of a palette. -/
def nextColors (colors : List String) : Nat → PaintState α → List String
  | 0, _ => []
  | n + 1, st =>
    let (c, st) := st.nextColor colors
    c :: nextColors colors n st

end PaintState

namespace Painter

variable {α ε : Type} [Scalar α]

/-- The names that are labelled as operators where they are applied. -/
def operators : List String := ["+", "-", "*", "/"]

/-- Takes the next colour of the palette. -/
def takeColor (p : Painter α) : Paint α ε String :=
  modifyGet (PaintState.nextColor p.settings.colors)

/-- Places a label at a point of the frame of a site. -/
def label (site : Site α) (x y : α) (text color : String) (fontSize : α) :
    Paint α ε (Primitive α) := do
  let (px, py) ← modifyGet fun st =>
    let (at', registry) := st.registry.place (site.x + x) (site.y + y) text fontSize
    (at', { st with registry })
  return .label ⟨px - site.x, py - site.y, text, color, fontSize⟩

/-- The labels that a site takes: those of some primitives unless labels are off there. -/
def labelled (p : Painter α) (site : Site α) (labels : Paint α ε (List (Primitive α))) :
    Paint α ε (List (Primitive α)) :=
  if p.settings.showLabels && !site.inNumeral then labels else pure []

/-- The colour of a variable: that of free variables, or that of its abstraction. -/
def variableColor (p : Painter α) (name : Option String) (index : Option Nat) (free : Bool)
    (binders : List String) : Except (StructuralFault ε) (String × Nat) :=
  match index with
  | none => .error (.unresolvedVariable name)
  | some i =>
    if free then .ok (p.settings.freeColor, i)
    else match binders[i]? with
      | some color => .ok (color, i)
      | none => .error (.variablePastLambdas name i binders.length)

/-- What the label of a variable shows. -/
def variableText (p : Painter α) (name : Option String) (index : Nat) : String :=
  match p.settings.variableLabels, name with
  | .name, some x => if x.isEmpty then toString index else x
  | _, _ => toString index

/-- Draws a variable. -/
def drawVariable (p : Painter α) (name : Option String) (index : Option Nat) (free : Bool)
    (site : Site α) : Paint α ε (Fragment α) := do
  let (color, i) ← MonadExcept.ofExcept (p.variableColor name index free site.binders)
  let line : Segment α :=
    { x1 := p.unit, y1 := Scalar.zero, x2 := p.unit, y2 := ((-(i + 1) : Int) : α) * p.unit,
      color, width := p.settings.lineWidth, rounded := false }
  let labels ← p.labelled site do
    let l ← label site (p.unit + Scalar.ofNat 3) Scalar.zero (p.variableText name i) color
      (Scalar.ofNat 12)
    return [l]
  return { width := 1, height := 0, stem := 0, primitives := .line line :: labels }

/-- The number of a numeral that is drawn as one: not zero, whose term is also a truth value. -/
def positiveNumeral? (name : Option String) (body : Tree ε) : Option Nat :=
  (Tree.lam name none body).churchValue?.filter (0 < ·)

/-- What the label of an abstraction shows. -/
def abstractionText (name : Option String) (numeral : Option Int) (body : Tree ε) : String :=
  match numeral, (Tree.lam name numeral body).booleanValue?, positiveNumeral? name body with
  | some n, _, _ => toString n
  | none, some b, _ => if b then "true" else "false"
  | none, none, some n => toString n
  | none, none, none => "λ" ++ name.getD ""

/-- Draws an abstraction, given how its body is drawn. -/
def drawAbstraction (p : Painter α) (name : Option String) (numeral : Option Int) (body : Tree ε)
    (drawBody : Site α → Paint α ε (Fragment α)) (site : Site α) : Paint α ε (Fragment α) := do
  let inNumeral :=
    site.inNumeral || numeral.isSome || (positiveNumeral? name body).isSome
  let color ← if inNumeral then pure p.settings.numeralColor else p.takeColor
  let inner ← drawBody
    { x := site.x, y := site.y + p.unit, binders := color :: site.binders, inNumeral }
  let overhang := p.settings.binderOverhang * p.unit
  let left := p.unit - overhang
  let right := p.unit + Scalar.ofNat (2 * (inner.width - 1)) * p.unit + overhang
  let bar : Segment α :=
    { x1 := left, y1 := Scalar.zero, x2 := right, y2 := Scalar.zero, color,
      width := p.settings.lineWidth * 1.2, rounded := true }
  let labels ← p.labelled site do
    let l ← label site left ((-5 : Int) : α) (abstractionText name numeral body)
      p.settings.textColor (Scalar.ofNat 14)
    return [l]
  return { width := inner.width, height := inner.height + 1, stem := inner.stem + 1,
           primitives := .line bar :: labels ++ (inner.translate Scalar.zero p.unit).primitives }

/-- The colour of an application: that of the abstraction that binds its argument, if the argument
is a bound variable, and else the next of the palette. -/
def applicationColor (p : Painter α) (argument : Tree ε) (binders : List String) :
    Paint α ε String :=
  match argument with
  | .var _ (some i) false =>
    match binders[i]? with
    | some color => pure color
    | none => p.takeColor
  | _ => p.takeColor

/-- The operator that a function is, if it is one. -/
def operator? : Tree ε → Option String
  | .var (some name) _ true => if name ∈ operators then some name else none
  | _ => none

/-- Joins a function, already drawn, to its argument: fillers, bar, dot and label.  The argument
starts right of the function and its leftmost line ends at a row of its own. -/
def join (p : Painter α) (function argument : Tree ε) (drawn : Fragment α) (argumentStem row : Nat)
    (site : Site α) : Paint α ε (List (Primitive α)) := do
  let color ← p.applicationColor argument site.binders
  let height : α := Scalar.ofNat row * p.unit
  let left := p.unit
  let right := p.unit + Scalar.ofNat (2 * drawn.width) * p.unit
  let line := fun x1 y1 x2 y2 =>
    Primitive.line { x1, y1, x2, y2, color, width := p.settings.lineWidth, rounded := false }
  let filler := fun x stem =>
    if stem < row then [line x (Scalar.ofNat stem * p.unit) x height] else []
  let dot :=
    if p.settings.hideApplicationSymbols then []
    else [Primitive.dot ⟨right, height, p.settings.lineWidth * 1.5, color⟩]
  let labels ← p.labelled site do
    match operator? function with
    | none => return []
    | some name =>
      let l ← label site left (height + Scalar.ofNat 12) name p.settings.operatorColor
        (Scalar.ofNat 12)
      return [l]
  return filler left drawn.stem ++ filler right argumentStem ++
    line left height right height :: dot ++ labels

/-- Where a term stands among the operands of an application. -/
inductive Position (α : Type) where
  /-- It has a frame of its own. -/
  | alone
  /-- It is the argument of an application, and starts at an offset in the frame of that. -/
  | argument (offset : α)

/-- Whether a position has a frame of its own. -/
def Position.isAlone : Position α → Bool
  | alone => true
  | argument _ => false

/-- The offset of a position in its frame. -/
def Position.offset : Position α → α
  | alone => 0.0
  | argument offset => offset

/-- Draws a leaf or an abstraction at a position: the drawing of an argument is moved into the
frame around it. -/
def inFrame (position : Position α) (site : Site α)
    (draw : Site α → Paint α ε (Fragment α)) : Paint α ε (Fragment α) :=
  match position with
  | .alone => draw site
  | .argument offset => do
    let drawn ← draw (site.right offset)
    return drawn.translate offset Scalar.zero

/-- Whether a tree is a foreign leaf. -/
def isForeign : Tree ε → Bool
  | .foreign _ => true
  | _ => false

/-- Draws a tree that stands at a position of the frame of a site.  An application in a frame of its
own must not have a foreign operand. -/
def drawAt (p : Painter α) : Tree ε → Position α → Site α → Paint α ε (Fragment α)
  | .foreign value, _, _ => throw (.malformed (.foreign value))
  | .var name index free, position, site =>
    inFrame position site (p.drawVariable name index free)
  | .lam name numeral body, position, site =>
    if isForeign body then throw (.malformed (.lam name numeral body))
    else inFrame position site (p.drawAbstraction name numeral body (drawAt p body .alone))
  | .app f a, position, site =>
    if position.isAlone && (isForeign f || isForeign a) then throw (.malformed (.app f a)) else do
    let offset := position.offset
    let own := site.right offset
    let function ← drawAt p f .alone own
    let argument ← drawAt p a
      (.argument (offset + Scalar.ofNat (2 * function.width) * p.unit)) site
    let row := max function.height argument.height
    let bars ← p.join f a function argument.stem row own
    return { width := function.width + argument.width, height := row + 1, stem := row,
             primitives := bars.map (Primitive.translate offset Scalar.zero) ++
               (function.translate offset Scalar.zero).primitives ++ argument.primitives }

/-- Draws a tree in the frame of a site. -/
def draw (p : Painter α) (t : Tree ε) (site : Site α) : Paint α ε (Fragment α) :=
  p.drawAt t .alone site

end Painter

end Tromp
