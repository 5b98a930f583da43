import Tromp.Drawing.Painter

/-!
# Labels and marks

A drawing has two layers.  Its lines and dots are its *marks*: they are drawn where they belong.
Its labels are placed: each node asks for one label at most, at the point of its frame where the
label should best stand.  A variable and an abstraction always ask for one, and an application does
when its function is an operator.  `Painter.write` is the one step of the painter that places what a
node asks for, where labels are on.
-/

namespace Tromp

/-- The line or the dot, if a primitive is no label. -/
def Primitive.mark? {α : Type} : Primitive α → Option (Primitive α)
  | label _ => none
  | q => some q

/-- The drawing without its labels. -/
def Fragment.withoutLabels {α : Type} [Scalar α] (d : Fragment α) : Fragment α :=
  { d with primitives := d.primitives.filterMap Primitive.mark? }

namespace Painter

variable {α ε : Type} [Scalar α]

omit [Scalar α] in
/-- A variable that has a colour has an index. -/
theorem index_of_variableColor {p : Painter α} {name : Option String} {index : Option Nat} {free : Bool}
    {binders : List String} {c : String × Nat}
    (h : p.variableColor (ε := ε) name index free binders = .ok c) : index = some c.2 := by
  unfold variableColor at h
  split at h
  · cases h
  · split at h
    · cases h
      rfl
    · split at h
      · cases h
        rfl
      · cases h

/-- The label that a variable asks for. -/
def variableLabel (p : Painter α) (name : Option String) (index : Nat) (color : String) : Label α :=
  ⟨p.unit + Scalar.ofNat 3, Scalar.zero, p.variableText name index, color, Scalar.ofNat 12⟩

/-- The label that an abstraction asks for. -/
def abstractionLabel (p : Painter α) (name : Option String) (numeral : Option Int)
    (body : Tree ε) : Label α :=
  ⟨p.unit - p.settings.binderOverhang * p.unit, ((-5 : Int) : α),
    abstractionText name numeral body, p.settings.textColor, Scalar.ofNat 14⟩

/-- The label that an application asks for whose bar stands in a row. -/
def operatorLabel? (p : Painter α) (function : Tree ε) (row : Nat) : Option (Label α) :=
  (operator? function).map fun name =>
    ⟨p.unit, Scalar.ofNat row * p.unit + Scalar.ofNat 12, name, p.settings.operatorColor,
      Scalar.ofNat 12⟩

/-- Places a label that is asked for, if there is one and labels are on at the site. -/
def write (p : Painter α) (site : Site α) (asked : Option (Label α)) :
    Paint α ε (List (Primitive α)) :=
  p.labelled site <|
    match asked with
    | none => return []
    | some wish => do
      let l ← label site wish.x wish.y wish.text wish.color wish.fontSize
      return [l]

/-- What joins a function, already drawn, to its argument in a colour: fillers, bar and dot. -/
def joint (p : Painter α) (drawn : Fragment α) (argumentStem row : Nat) (color : String) :
    List (Primitive α) :=
  let height : α := Scalar.ofNat row * p.unit
  let left := p.unit
  let right := p.unit + Scalar.ofNat (2 * drawn.width) * p.unit
  let line := fun x1 y1 x2 y2 =>
    Primitive.line { x1, y1, x2, y2, color, width := p.settings.lineWidth, rounded := false }
  let filler := fun x stem =>
    if stem < row then [line x (Scalar.ofNat stem * p.unit) x height] else []
  let dot :=
    if p.settings.hideApplicationSymbols then []
    else [Primitive.dot ⟨right, height, p.settings.lineWidth * 1.5, color⟩]
  filler left drawn.stem ++ filler right argumentStem ++ line left height right height :: dot

/-- A joint is made of lines, and of a dot unless the dots of junctions are off. -/
theorem of_mem_joint {p : Painter α} {drawn : Fragment α} {argumentStem row : Nat} {color : String}
    {q : Primitive α} (hq : q ∈ p.joint drawn argumentStem row color) :
    (∃ line, q = .line line) ∨ p.settings.hideApplicationSymbols = false ∧ ∃ dot, q = .dot dot := by
  have hfiller : ∀ {c : Prop} [Decidable c] {line : Segment α},
      q ∈ (if c then [Primitive.line line] else []) → ∃ line, q = .line line := by
    intro c _ line hq
    split at hq
    · exact ⟨line, List.mem_singleton.mp hq⟩
    · cases hq
  rcases List.mem_append.mp hq with hq | hq
  · rcases List.mem_append.mp hq with hq | hq
    · exact .inl (hfiller hq)
    · exact .inl (hfiller hq)
  · rcases List.mem_cons.mp hq with rfl | hq
    · exact .inl ⟨_, rfl⟩
    · split at hq
      · cases hq
      next hshown => exact .inr ⟨Bool.eq_false_iff.mpr hshown, _, List.mem_singleton.mp hq⟩

/-- An application is joined in its colour, and the label of an operator is written. -/
theorem join_eq_write (p : Painter α) (f a : Tree ε) (drawn : Fragment α) (argumentStem row : Nat)
    (site : Site α) :
    p.join f a drawn argumentStem row site = do
      let color ← p.applicationColor a site.binders
      let labels ← p.write site (p.operatorLabel? f row)
      return p.joint drawn argumentStem row color ++ labels := by
  unfold join operatorLabel? write
  cases operator? f <;> rfl

end Painter

end Tromp
