import Mathlib.Tactic.Ring
import Tromp.Proofs.Drawing.Nested
import Tromp.Proofs.Drawing.Run
import Tromp.Proofs.Drawing.Strokes

/-!
# The lines of a drawing

In exact arithmetic the lines of a drawing are the strokes of its term, one for one and in the same
order, with a colour for each node (`Painter.shows_of_yields`).  Columns are two rows wide, and the
bar of an abstraction hangs over on both sides.

The colours of the variables are those of their abstractions.  On the way down the painter keeps the
colours of the abstractions around a term; `Painter.IsColoring` says that a bound variable takes the
one that its index names, counted through the abstractions inside the term first, and then through
those around it.
-/

namespace Tromp

/-- A line moved by a vector. -/
def Segment.translate (s : Segment Rat) (dx dy : Rat) : Segment Rat :=
  { s with x1 := s.x1 + dx, y1 := s.y1 + dy, x2 := s.x2 + dx, y2 := s.y2 + dy }

theorem Segment.translate_zero (s : Segment Rat) : s.translate 0 0 = s := by
  simp [translate]

theorem Primitive.line?_translate (q : Primitive Rat) (dx dy : Rat) :
    (q.translate dx dy).line? = q.line?.map (·.translate dx dy) := by
  cases q <;> rfl

theorem Fragment.segments_translate (d : Fragment Rat) (dx dy : Rat) :
    (d.translate dx dy).segments = d.segments.map (·.translate dx dy) :=
  Primitive.filterMap_translate (fun q => q.line?_translate dx dy) d.primitives

namespace Painter

variable (p : Painter Rat)

/-- How far the line of a stroke hangs over at both ends. -/
def overhang : StrokeRole → Rat
  | .abstraction => p.settings.binderOverhang * p.unit
  | _ => 0

/-- How wide the line of a stroke is drawn. -/
def thickness : StrokeRole → Rat
  | .abstraction => p.settings.lineWidth * 1.2
  | _ => p.settings.lineWidth

/-- The line of a stroke. -/
def segment (color : String) (k : Stroke) : Segment Rat where
  x1 := (2 * k.column1 + 1) * p.unit - p.overhang k.role
  y1 := k.row1 * p.unit
  x2 := (2 * k.column2 + 1) * p.unit + p.overhang k.role
  y2 := k.row2 * p.unit
  color := color
  width := p.thickness k.role
  rounded := k.role = .abstraction

/-- Moving a stroke by columns and rows moves its line. -/
theorem segment_under (color : String) (k : Stroke) (π : Address) (columns rows : Nat) :
    p.segment color (k.under π columns rows) =
      (p.segment color k).translate (Scalar.ofNat (2 * columns) * p.unit) (rows * p.unit) := by
  simp only [segment, Stroke.under, Segment.translate, Scalar.ofNat_rat, Segment.mk.injEq]
  push_cast
  refine ⟨?_, ?_, ?_, ?_, trivial, trivial, rfl⟩ <;> ring

/-- The middle of a column, seen from the middle of the first one. -/
theorem unit_add_columns (n : Nat) : p.unit + 2 * n * p.unit = (2 * n + 1) * p.unit := by
  ring

variable {p} {site : Site Rat} {d : Fragment Rat}

/-- A variable at an address has an index.  If it is free it has the colour of free variables, and if
it is bound that of its abstraction, among those inside the term and then those around it. -/
def IsColored (p : Painter Rat) (binders : List String) (colors : Address → String) (π : Address)
    (index : Option Nat) (free : Bool) : Prop :=
  ∃ i, index = some i ∧ (free = true → colors π = p.settings.freeColor) ∧
    (free = false → (π.enclosing.map colors ++ binders)[i]? = some (colors π))

/-- A coloring of the nodes of a term in which all variables have their colours. -/
def IsColoring (p : Painter Rat) (t : Term) (binders : List String) (colors : Address → String) :
    Prop :=
  ∀ π name index free, t.at? π = some (.var name index free) →
    p.IsColored binders colors π index free

/-- The colours of the nodes of a term, given that of the root and those below each turn. -/
def colorsBelow (root : String) (below : Turn → Address → String) : Address → String
  | [] => root
  | turn :: π => below turn π

/-- The colours below each turn of an application. -/
def operandColors (function argument : Address → String) : Turn → Address → String
  | .func => function
  | _ => argument

variable {binders : List String} {color : String}

/-- Below a turn a variable keeps its colour, when the same abstractions are around it. -/
theorem IsColored.below {colors : Turn → Address → String} {binders' : List String} {turn : Turn}
    {π : Address} {index : Option Nat} {free : Bool}
    (h : p.IsColored binders' (colors turn) π index free)
    (haround : (Address.enclosing (turn :: π)).map (colorsBelow color colors) ++ binders =
      π.enclosing.map (colors turn) ++ binders') :
    p.IsColored binders (colorsBelow color colors) (turn :: π) index free := by
  obtain ⟨i, hi, hfree, hbound⟩ := h
  refine ⟨i, hi, hfree, fun hfalse => ?_⟩
  rw [haround]
  exact hbound hfalse

namespace IsColoring

theorem var {name : Option String} {i : Nat} {free : Bool}
    (hfree : free = true → color = p.settings.freeColor)
    (hbound : free = false → binders[i]? = some color) :
    p.IsColoring (.var name (some i) free) binders fun _ => color := by
  intro π name' index' free' hπ
  cases π with
  | nil =>
      cases hπ
      exact ⟨i, rfl, hfree, hbound⟩
  | cons turn π => cases turn <;> cases hπ

theorem lam {name : Option String} {numeral : Option Int} {body : Term}
    {colors : Address → String} (h : p.IsColoring body (color :: binders) colors) :
    p.IsColoring (.lam name numeral body) binders (colorsBelow color fun _ => colors) := by
  intro π name' index' free' hπ
  cases π with
  | nil => cases hπ
  | cons turn π =>
      cases turn with
      | func | arg => cases hπ
      | body =>
          -- The innermost of the abstractions around the body is this one.
          refine (h π name' index' free' hπ).below ?_
          simp [Address.enclosing, Function.comp_def, colorsBelow]

theorem app {f a : Term} {function argument : Address → String}
    (hf : p.IsColoring f binders function) (ha : p.IsColoring a binders argument) :
    p.IsColoring (.app f a) binders (colorsBelow color (operandColors function argument)) := by
  intro π name' index' free' hπ
  cases π with
  | nil => cases hπ
  | cons turn π =>
      cases turn with
      | body => cases hπ
      | func =>
          refine IsColored.below (hf π name' index' free' hπ) ?_
          simp [Address.enclosing, Function.comp_def, colorsBelow, operandColors]
      | arg =>
          refine IsColored.below (ha π name' index' free' hπ) ?_
          simp [Address.enclosing, Function.comp_def, colorsBelow, operandColors]

end IsColoring

/-! ### The steps of the painter -/

open Paint

/-- The colour of a variable that is drawn, and its index. -/
theorem of_variableColor {name : Option String} {index : Option Nat} {free : Bool} {i : Nat}
    (h : p.variableColor (ε := Empty) name index free binders = .ok (color, i)) :
    index = some i ∧ (free = true → color = p.settings.freeColor) ∧
      (free = false → binders[i]? = some color) := by
  cases index with
  | none => cases h
  | some j =>
      cases free with
      | true =>
          cases h
          simp
      | false =>
          simp only [variableColor, Bool.false_eq_true, if_false] at h
          split at h
          next hcolor =>
              cases h
              simp [hcolor]
          next => cases h

/-- **Variables.**  The line of a variable is its stroke. -/
theorem of_yields_drawVariable {name : Option String} {index : Option Nat} {free : Bool}
    (h : Yields (p.drawVariable (ε := Empty) name index free site) d) :
    ∃ color i, p.variableColor (ε := Empty) name index free site.binders = .ok (color, i) ∧
      d.width = 1 ∧ d.height = 0 ∧ d.stem = 0 ∧ d.segments = [p.segment color (.ofVariable i)] := by
  obtain ⟨⟨color, i⟩, hcolor, h⟩ := yields_bind h
  obtain ⟨labels, hlabels, h⟩ := yields_bind h
  have hnone := yields_labelled (fun ps => yields_label) hlabels
  rw [yields_pure h]
  refine ⟨color, i, yields_ofExcept hcolor, rfl, rfl, rfl, ?_⟩
  simp [Fragment.segments, Primitive.line?, hnone, segment, overhang, thickness, Stroke.ofVariable]

/-- **Abstractions.**  The bar of an abstraction has the colour that is given to its body, and the
lines of the body stand one row below it. -/
theorem of_yields_drawAbstraction {name : Option String} {numeral : Option Int} {body : Term}
    {drawBody : Site Rat → Paint Rat Empty (Fragment Rat)}
    (h : Yields (p.drawAbstraction name numeral body drawBody site) d) :
    ∃ color own inner, own.binders = color :: site.binders ∧ Yields (drawBody own) inner ∧
      d.width = inner.width ∧ d.height = inner.height + 1 ∧ d.stem = inner.stem + 1 ∧
      d.segments = p.segment color (.ofAbstraction inner.width) ::
        inner.segments.map (·.translate 0 p.unit) := by
  obtain ⟨color, h⟩ := yields_ite_bind h
  obtain ⟨inner, hinner, h⟩ := yields_bind h
  obtain ⟨labels, hlabels, h⟩ := yields_bind h
  have hnone := yields_labelled (fun ps => yields_label) hlabels
  rw [yields_pure h]
  refine ⟨color, _, inner, rfl, hinner, rfl, rfl, rfl, ?_⟩
  rw [← Fragment.segments_translate]
  simp [Fragment.segments, Primitive.line?, hnone, segment, overhang, thickness,
    Stroke.ofAbstraction, unit_add_columns]

/-- A filler is drawn where it is a stroke. -/
theorem lines_filler (p : Painter Rat) (role : StrokeRole) (hrole : role ≠ .abstraction)
    (color : String) (column stem row : Nat) {x : Rat} (hx : x = (2 * column + 1) * p.unit) :
    List.filterMap Primitive.line? (if stem < row then
      [Primitive.line { x1 := x, y1 := stem * p.unit, x2 := x, y2 := row * p.unit, color,
                        width := p.settings.lineWidth, rounded := false }] else []) =
      (Stroke.filler role column stem row).map (p.segment color) := by
  subst hx
  unfold Stroke.filler
  split
  next => cases role <;> simp_all [Primitive.line?, segment, overhang, thickness]
  next => rfl

/-- **Joints.**  The fillers and the bar of an application are its strokes, in one colour. -/
theorem of_yields_join {f a : Term} {drawn : Fragment Rat} {argumentStem row : Nat}
    {bars : List (Primitive Rat)}
    (h : Yields (p.join f a drawn argumentStem row site) bars) :
    ∃ color, bars.filterMap Primitive.line? =
      (Stroke.ofApplication drawn.width drawn.stem argumentStem row).map (p.segment color) := by
  obtain ⟨color, -, h⟩ := yields_bind h
  obtain ⟨labels, hlabels, h⟩ := yields_bind h
  have hnone : labels.filterMap Primitive.line? = [] := by
    refine yields_labelled (fun ps hps => ?_) hlabels
    split at hps
    next => rw [yields_pure hps, List.filterMap_nil]
    next => exact yields_label hps
  rw [yields_pure h]
  refine ⟨color, ?_⟩
  have hdot : ∀ dot : Dot Rat, List.filterMap Primitive.line?
      (if p.settings.hideApplicationSymbols then [] else [.dot dot]) = [] := by
    intro dot
    split <;> rfl
  have hunit : p.unit = (2 * (0 : Nat) + 1) * p.unit := by simp
  have hfunc := lines_filler p .functionFiller (by decide) color 0 drawn.stem row hunit
  have harg := lines_filler p .argumentFiller (by decide) color drawn.width argumentStem row rfl
  simp [Primitive.line?, hnone, hdot, hfunc, harg, segment, overhang, thickness,
    Stroke.ofApplication, unit_add_columns]

/-- **Applications.**  The operands are drawn side by side, after their joint. -/
theorem of_yields_drawNested_app {f a : Term} (h : Yields (p.drawNested (.app f a) site) d) :
    ∃ color function argument own, Yields (p.drawNested f site) function ∧
      own.binders = site.binders ∧ Yields (p.drawNested a own) argument ∧
      d.width = function.width + argument.width ∧
      d.height = max function.height argument.height + 1 ∧
      d.stem = max function.height argument.height ∧
      d.segments =
        (Stroke.ofApplication function.width function.stem argument.stem
          (max function.height argument.height)).map (p.segment color) ++
        function.segments ++
        argument.segments.map (·.translate (Scalar.ofNat (2 * function.width) * p.unit) 0) := by
  obtain ⟨function, hfunction, h⟩ := yields_bind h
  obtain ⟨argument, hargument, h⟩ := yields_bind h
  obtain ⟨bars, hbars, h⟩ := yields_bind h
  obtain ⟨color, hbars⟩ := of_yields_join hbars
  rw [yields_pure h]
  refine ⟨color, function, argument, site.right _, hfunction, rfl, hargument, rfl, rfl, rfl, ?_⟩
  rw [← hbars, ← Fragment.segments_translate]
  simp [Fragment.segments]

/-! ### Whole drawings -/

/-- What the drawing of a term shows, given the colours of the abstractions around it: the size of
the term, and its strokes in the colours of their nodes. -/
structure Shows (p : Painter Rat) (t : Term) (binders : List String) (d : Fragment Rat) : Prop where
  width_eq : d.width = t.width
  height_eq : d.height = t.height
  stem_eq : d.stem = t.stem
  segments_eq : ∃ colors, p.IsColoring t binders colors ∧
    d.segments = t.strokes.map fun k => p.segment (colors k.node) k

/-- The strokes of a term below a turn are drawn like those of the term on its own, and moved. -/
theorem map_segment_under (colors : Address → String) (turn : Turn) (l : List Stroke)
    (columns rows : Nat) :
    ((l.map (·.under [turn] columns rows)).map fun k => p.segment (colors k.node) k) =
      (l.map fun k => p.segment (colors (turn :: k.node)) k).map
        (·.translate (Scalar.ofNat (2 * columns) * p.unit) (rows * p.unit)) := by
  simp only [List.map_map, Function.comp_def, segment_under]
  rfl

/-- **Drawing shows the term.**  By induction on the term: each step of the painter shows its part,
whatever was used up before. -/
theorem shows_of_yields {t : Term} (h : Yields (p.drawNested t site) d) :
    p.Shows t site.binders d := by
  induction t using Term.induction generalizing site d with
  | var name index free =>
      obtain ⟨color, i, hcolor, hwidth, hheight, hstem, hsegments⟩ := of_yields_drawVariable h
      obtain ⟨rfl, hfree, hbound⟩ := of_variableColor hcolor
      exact ⟨hwidth, hheight, hstem, _, .var hfree hbound, hsegments⟩
  | lam name numeral body ih =>
      obtain ⟨color, own, inner, hown, hinner, hwidth, hheight, hstem, hsegments⟩ :=
        of_yields_drawAbstraction h
      obtain ⟨hw, hh, hs, colors, hcolors, hbelow⟩ := ih hinner
      rw [hown] at hcolors
      rw [hw] at hwidth hsegments
      rw [hh] at hheight
      rw [hs] at hstem
      refine ⟨hwidth, hheight, hstem, _, hcolors.lam, ?_⟩
      rw [hsegments, hbelow, Term.strokes, List.map_cons, map_segment_under]
      simp [colorsBelow]
  | app f a ihf iha =>
      obtain ⟨color, function, argument, own, hfunction, hown, hargument, hwidth, hheight, hstem,
        hsegments⟩ := of_yields_drawNested_app h
      obtain ⟨hwf, hhf, hsf, colorsf, hcolorsf, hf⟩ := ihf hfunction
      obtain ⟨hwa, hha, hsa, colorsa, hcolorsa, ha⟩ := iha hargument
      rw [hown] at hcolorsa
      rw [hwf, hwa] at hwidth
      rw [hhf, hha] at hheight hstem
      rw [hwf, hsf, hsa, hhf, hha, hf, ha] at hsegments
      have hroot : ∀ k ∈ Stroke.ofApplication f.width f.stem a.stem (max f.height a.height),
          p.segment (colorsBelow color (operandColors colorsf colorsa) k.node) k =
            p.segment color k := by
        intro k hk
        rw [Stroke.node_of_mem_ofApplication hk]
        rfl
      refine ⟨hwidth, hheight, hstem, colorsBelow color _, hcolorsf.app hcolorsa, ?_⟩
      rw [hsegments, Term.strokes, List.map_append, List.map_append, List.map_congr_left hroot,
        map_segment_under, map_segment_under]
      simp [Segment.translate_zero, colorsBelow, operandColors]

end Painter

end Tromp
