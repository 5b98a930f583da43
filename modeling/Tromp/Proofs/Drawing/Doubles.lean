import Tromp.Proofs.Arithmetic.Checked
import Tromp.Proofs.Drawing.Labelling
import Tromp.Proofs.Drawing.Layout
import Tromp.Proofs.Drawing.Run

/-!
# Drawings stand at doubles

The size of a row comes from a quotient, so it is a double, and whatever meets a double in arithmetic
becomes one.  So every coordinate of a drawing is a double or the whole number zero: its *magnitude*
as a whole number is nothing (`allLight_of_layout`).  Large whole numbers show only where settings
are copied, in the thickness of lines.

The induction is on the term.  It needs the site to stand at doubles, because labels are placed on
the canvas and moved back into their frame.
-/

namespace Tromp

namespace Number

variable {x y : Number}

/-- A number is a double. -/
def IsReal (x : Number) : Prop := ∃ r, x = .real r

theorem IsReal.magnitude_eq (h : x.IsReal) : x.magnitude = 0 := by
  obtain ⟨r, rfl⟩ := h
  rfl

theorem IsReal.magnitude_le (h : x.IsReal) (bound : Nat) : x.magnitude ≤ bound :=
  h.magnitude_eq.trans_le bound.zero_le

theorem isReal_decimal (m : Nat) (s : Bool) (e : Nat) :
    IsReal (OfScientific.ofScientific m s e) := ⟨_, rfl⟩

section Combine

variable {onInt : Int → Int → Int} {onFloat : Float → Float → Float}

/-- What meets a double becomes one. -/
theorem IsReal.combine (h : x.IsReal ∨ y.IsReal) : (combine onInt onFloat x y).IsReal := by
  rcases h with ⟨r, rfl⟩ | ⟨r, rfl⟩
  · exact ⟨_, rfl⟩
  · cases x <;> exact ⟨_, rfl⟩

end Combine

theorem IsReal.add (h : x.IsReal) (y : Number) : (x + y).IsReal := IsReal.combine (.inl h)

theorem IsReal.sub (h : x.IsReal) (y : Number) : (x - y).IsReal := IsReal.combine (.inl h)

theorem IsReal.mul (h : x.IsReal) (y : Number) : (x * y).IsReal := IsReal.combine (.inl h)

theorem IsReal.mul_left (h : x.IsReal) (y : Number) : (y * x).IsReal := IsReal.combine (.inr h)

theorem magnitude_add_eq_zero (hx : x.magnitude = 0) (hy : y.magnitude = 0) :
    (x + y).magnitude = 0 := by
  have hsum : (x + y).magnitude ≤ x.magnitude + y.magnitude :=
    magnitude_combine_le Int.natAbs_add_le x y
  omega

end Number

open Number

section Primitives

variable {α : Type}

/-- The coordinates of a primitive. -/
def Primitive.coordinates : Primitive α → List α
  | line s => [s.x1, s.y1, s.x2, s.y2]
  | label l => [l.x, l.y]
  | dot d => [d.cx, d.cy]

/-- How thick or high a primitive is. -/
def Primitive.extent : Primitive α → α
  | line s => s.width
  | label l => l.fontSize
  | dot d => d.r

end Primitives

/-- The coordinates of a primitive are doubles or zero, and its extent is at most so large a whole
number. -/
def Primitive.IsLight (bound : Nat) (q : Primitive Number) : Prop :=
  (∀ v ∈ q.coordinates, v.magnitude = 0) ∧ q.extent.magnitude ≤ bound

/-- All of some primitives are light. -/
def AllLight (bound : Nat) (ps : List (Primitive Number)) : Prop := ∀ q ∈ ps, q.IsLight bound

namespace AllLight

variable {bound : Nat} {ps qs : List (Primitive Number)}

theorem nil : AllLight bound [] := List.forall_mem_nil _

theorem append (hps : AllLight bound ps) (hqs : AllLight bound qs) : AllLight bound (ps ++ qs) :=
  List.forall_mem_append.mpr ⟨hps, hqs⟩

/-- Light primitives stay light when they are moved by doubles, or along one axis only. -/
theorem translate {dx dy : Number} (h : AllLight bound ps) (hdx : dx.magnitude = 0)
    (hdy : dy.magnitude = 0) : AllLight bound (ps.map (Primitive.translate dx dy)) := by
  intro q hq
  obtain ⟨own, hown, rfl⟩ := List.mem_map.mp hq
  obtain ⟨hcoordinates, hextent⟩ := h own hown
  cases own <;>
    simp only [Primitive.coordinates, List.forall_mem_cons] at hcoordinates <;>
    refine ⟨?_, hextent⟩ <;>
    simp only [Primitive.translate, Primitive.coordinates, List.forall_mem_cons]
  case line =>
    obtain ⟨hx1, hy1, hx2, hy2, hnone⟩ := hcoordinates
    exact ⟨magnitude_add_eq_zero hx1 hdx, magnitude_add_eq_zero hy1 hdy,
      magnitude_add_eq_zero hx2 hdx, magnitude_add_eq_zero hy2 hdy, hnone⟩
  all_goals
    obtain ⟨hx, hy, hnone⟩ := hcoordinates
    exact ⟨magnitude_add_eq_zero hx hdx, magnitude_add_eq_zero hy hdy, hnone⟩

end AllLight

/-- A line between points whose coordinates are doubles or zero. -/
theorem isLight_line {bound : Nat} {x1 y1 x2 y2 width : Number} {color : String} {rounded : Bool}
    (hx1 : x1.magnitude = 0) (hy1 : y1.magnitude = 0) (hx2 : x2.magnitude = 0)
    (hy2 : y2.magnitude = 0) (hwidth : width.magnitude ≤ bound) :
    Primitive.IsLight bound (.line ⟨x1, y1, x2, y2, color, width, rounded⟩) := by
  refine ⟨?_, hwidth⟩
  simp only [Primitive.coordinates, List.forall_mem_cons]
  exact ⟨hx1, hy1, hx2, hy2, List.forall_mem_nil _⟩

/-! ### Labels -/

/-- A label stands at doubles on the canvas, wherever it is placed. -/
theorem LabelRegistry.isReal_position_plain (r : LabelRegistry Number) {x y : Number} (hx : x.IsReal)
    (hy : y.IsReal) (text : String) (fontSize : Number) :
    (r.position x y text fontSize).1.IsReal ∧ (r.position x y text fontSize).2.IsReal := by
  unfold position
  cases hfree : (r.candidates x y).find? fun c => r.isFree (r.box c.1 c.2 text fontSize) with
  | none => exact ⟨hx, hy.sub _⟩
  | some c =>
      rcases List.mem_cons.mp (List.mem_of_find?_eq_some hfree) with rfl | hc
      · exact ⟨hx, hy⟩
      · obtain ⟨ring, -, hc⟩ := List.mem_flatMap.mp hc
        obtain ⟨direction, -, rfl⟩ := List.mem_map.mp hc
        exact ⟨hx.add _, hy.add _⟩

namespace Painter

open Paint

variable {p : Painter Number} {bound : Nat} {site : Site Number} {ps : List (Primitive Number)}
  {t : Term} {d : Fragment Number}

/-- What is written is light, if the fonts that are asked for are small. -/
theorem allLight_of_yields_write (hx : site.x.IsReal) (hy : site.y.IsReal)
    {asked : Option (Label Number)} (hasked : ∀ l ∈ asked, l.fontSize.magnitude ≤ bound)
    (h : Yields (p.write (ε := Empty) site asked) ps) : AllLight bound ps := by
  unfold write labelled at h
  split at h
  · cases asked with
    | none =>
        rw [yields_pure h]
        exact AllLight.nil
    | some wish =>
        obtain ⟨q, hq, hps⟩ := yields_bind h
        obtain ⟨place, ⟨st, st', hplaced⟩, hq⟩ := yields_bind hq
        obtain rfl : st.registry.position (site.x + wish.x) (site.y + wish.y) wish.text
            wish.fontSize = place := Except.ok.inj (congrArg Prod.fst hplaced)
        obtain ⟨hpx, hpy⟩ := st.registry.isReal_position_plain (hx.add wish.x) (hy.add wish.y)
          wish.text wish.fontSize
        rw [yields_pure hps, yields_pure hq]
        refine List.forall_mem_singleton.mpr ⟨?_, hasked wish rfl⟩
        simp only [Primitive.coordinates, List.forall_mem_cons]
        exact ⟨(hpx.sub _).magnitude_eq, (hpy.sub _).magnitude_eq, List.forall_mem_nil _⟩
  · rw [yields_pure h]
    exact AllLight.nil

/-! ### What is drawn -/

/-- All of a joint is light, if lines are no thicker. -/
theorem allLight_joint (hunit : p.unit.IsReal) (hline : p.settings.lineWidth.magnitude ≤ bound)
    {drawn : Fragment Number} {argumentStem row : Nat} {color : String} :
    AllLight bound (p.joint drawn argumentStem row color) := by
  have hrows : ∀ n : Nat, (Scalar.ofNat n * p.unit).magnitude = 0 :=
    fun n => (hunit.mul_left _).magnitude_eq
  have hright : (p.unit + Scalar.ofNat (2 * drawn.width) * p.unit).magnitude = 0 :=
    (hunit.add _).magnitude_eq
  have hfiller : ∀ (c : Prop) [Decidable c] {x : Number} (stem : Nat), x.magnitude = 0 →
      AllLight bound (if c then [.line ⟨x, Scalar.ofNat stem * p.unit, x, Scalar.ofNat row * p.unit,
        color, p.settings.lineWidth, false⟩] else []) := by
    intro c _ x stem hx
    split
    · exact List.forall_mem_singleton.mpr (isLight_line hx (hrows _) hx (hrows _) hline)
    · exact AllLight.nil
  have hdot : AllLight bound (if p.settings.hideApplicationSymbols then [] else
      [.dot ⟨p.unit + Scalar.ofNat (2 * drawn.width) * p.unit, Scalar.ofNat row * p.unit,
        p.settings.lineWidth * 1.5, color⟩]) := by
    split
    · exact AllLight.nil
    · refine List.forall_mem_singleton.mpr ⟨?_, ?_⟩
      · simp only [Primitive.coordinates, List.forall_mem_cons]
        exact ⟨hright, hrows _, List.forall_mem_nil _⟩
      · exact ((isReal_decimal _ _ _).mul_left p.settings.lineWidth).magnitude_le bound
  have hbar : Primitive.IsLight bound (.line ⟨p.unit, Scalar.ofNat row * p.unit,
      p.unit + Scalar.ofNat (2 * drawn.width) * p.unit, Scalar.ofNat row * p.unit, color,
      p.settings.lineWidth, false⟩) :=
    isLight_line hunit.magnitude_eq (hrows row) hright (hrows row) hline
  exact ((hfiller _ _ hunit.magnitude_eq).append (hfiller _ _ hright)).append
    (List.forall_mem_cons.mpr ⟨hbar, hdot⟩)

section Nodes

variable (hunit : p.unit.IsReal) (hline : p.settings.lineWidth.magnitude ≤ bound)
  (hfont : 14 ≤ bound)

include hunit hline hfont

theorem allLight_of_yields_drawVariable (hx : site.x.IsReal) (hy : site.y.IsReal)
    {name : Option String} {index : Option Nat} {free : Bool}
    (h : Yields (p.drawVariable (ε := Empty) name index free site) d) :
    AllLight bound d.primitives := by
  obtain ⟨⟨color, i⟩, -, hrest⟩ := yields_bind h
  obtain ⟨labels, hlabels, hd⟩ := yields_bind hrest
  have hasked : ∀ l ∈ some (p.variableLabel name i color), l.fontSize.magnitude ≤ bound := by
    rintro l ⟨⟩
    change 12 ≤ bound
    omega
  have hstem : Primitive.IsLight bound (.line ⟨p.unit, Scalar.zero, p.unit,
      ((-(i + 1) : Int) : Number) * p.unit, color, p.settings.lineWidth, false⟩) :=
    isLight_line hunit.magnitude_eq rfl hunit.magnitude_eq (hunit.mul_left _).magnitude_eq hline
  rw [yields_pure hd]
  exact List.forall_mem_cons.mpr ⟨hstem, allLight_of_yields_write hx hy hasked hlabels⟩

omit hline in
theorem allLight_of_yields_drawAbstraction (hx : site.x.IsReal) (hy : site.y.IsReal)
    {name : Option String} {numeral : Option Int} {body : Term}
    {drawBody : Site Number → Paint Number Empty (Fragment Number)}
    (hbody : ∀ own inner, own.x.IsReal → own.y.IsReal → Yields (drawBody own) inner →
      AllLight bound inner.primitives)
    (h : Yields (p.drawAbstraction name numeral body drawBody site) d) :
    AllLight bound d.primitives := by
  obtain ⟨color, -, hrest⟩ := yields_bind_of_ite h
  obtain ⟨inner, hinner, hrest⟩ := yields_bind hrest
  obtain ⟨labels, hlabels, hd⟩ := yields_bind hrest
  have hbelow : AllLight bound inner.primitives := by
    refine hbody _ inner ?_ ?_ hinner
    · exact hx
    · exact hy.add p.unit
  have hasked : ∀ l ∈ some (p.abstractionLabel name numeral body),
      l.fontSize.magnitude ≤ bound := by
    rintro l ⟨⟩
    exact hfont
  have hthick : (p.settings.lineWidth * 1.2).magnitude ≤ bound :=
    ((isReal_decimal _ _ _).mul_left p.settings.lineWidth).magnitude_le bound
  have hbar : Primitive.IsLight bound (.line ⟨p.unit - p.settings.binderOverhang * p.unit,
      Scalar.zero, p.unit + Scalar.ofNat (2 * (inner.width - 1)) * p.unit +
        p.settings.binderOverhang * p.unit, Scalar.zero, color, p.settings.lineWidth * 1.2,
      true⟩) :=
    isLight_line (hunit.sub _).magnitude_eq rfl ((hunit.add _).add _).magnitude_eq rfl hthick
  rw [yields_pure hd]
  exact AllLight.append
    (List.forall_mem_cons.mpr ⟨hbar, allLight_of_yields_write hx hy hasked hlabels⟩)
    (hbelow.translate rfl hunit.magnitude_eq)

theorem allLight_of_yields_join (hx : site.x.IsReal) (hy : site.y.IsReal) {f a : Term}
    {drawn : Fragment Number} {argumentStem row : Nat}
    (h : Yields (p.join f a drawn argumentStem row site) ps) : AllLight bound ps := by
  rw [join_eq_write] at h
  obtain ⟨color, -, hrest⟩ := yields_bind h
  obtain ⟨labels, hlabels, hps⟩ := yields_bind hrest
  have hasked : ∀ l ∈ p.operatorLabel? f row, l.fontSize.magnitude ≤ bound := by
    intro l hl
    obtain ⟨name, -, rfl⟩ := Option.map_eq_some_iff.mp hl
    change 12 ≤ bound
    omega
  rw [yields_pure hps]
  exact (allLight_joint hunit hline).append (allLight_of_yields_write hx hy hasked hlabels)

/-- **Drawings stand at doubles or at zero**, at every position of a site that stands at doubles. -/
theorem allLight_of_yields (hx : site.x.IsReal) (hy : site.y.IsReal) {position : Position Number}
    (hposition : position.offset.IsReal) (h : Yields (p.drawAt t position site) d) :
    AllLight bound d.primitives := by
  have hframe : ∀ {position : Position Number} {site : Site Number} {d : Fragment Number}
      {draw : Site Number → Paint Number Empty (Fragment Number)}, site.x.IsReal → site.y.IsReal →
      position.offset.IsReal →
      (∀ own inner, own.x.IsReal → own.y.IsReal → Yields (draw own) inner →
        AllLight bound inner.primitives) →
      Yields (inFrame position site draw) d → AllLight bound d.primitives := by
    intro position site d draw hx hy hposition hdraw h
    cases position with
    | alone => exact hdraw site d hx hy h
    | argument offset =>
        obtain ⟨inner, hinner, hd⟩ := yields_bind h
        rw [yields_pure hd]
        exact (hdraw (site.right offset) inner (hx.add _) hy hinner).translate
          hposition.magnitude_eq rfl
  induction t using Term.induction generalizing site d position with
  | var name index free =>
      refine hframe hx hy hposition (fun own inner hownx howny hinner => ?_) h
      exact allLight_of_yields_drawVariable hunit hline hfont hownx howny hinner
  | lam name numeral body ih =>
      rw [drawAt, isForeign_term] at h
      refine hframe hx hy hposition (fun own inner hownx howny hinner => ?_) h
      exact allLight_of_yields_drawAbstraction hunit hfont hownx howny
        (fun _ _ hbelowx hbelowy hdrawn => ih hbelowx hbelowy (isReal_decimal _ _ _) hdrawn) hinner
  | app f a ihf iha =>
      rw [drawAt, isForeign_term, isForeign_term, Bool.or_self, Bool.and_false] at h
      obtain ⟨function, hfunction, hrest⟩ := yields_bind h
      obtain ⟨argument, hargument, hrest⟩ := yields_bind hrest
      obtain ⟨bars, hbars, hd⟩ := yields_bind hrest
      have hown : (site.right position.offset).x.IsReal := hx.add _
      have hjoined := allLight_of_yields_join hunit hline hfont hown hy hbars
      have hleft := ihf hown hy (isReal_decimal _ _ _) hfunction
      have hright := iha hx hy (hposition.add _) hargument
      rw [yields_pure hd]
      exact ((hjoined.translate hposition.magnitude_eq rfl).append
        (hleft.translate hposition.magnitude_eq rfl)).append hright

end Nodes

end Painter

/-! ### The whole layout -/

namespace LayoutSettings

/-- The factor that fits a term is a double. -/
theorem isReal_scaleOf (s : LayoutSettings Number) (t : Term) : (s.scaleOf t).IsReal := by
  have hsafety : ∀ size : Nat, (safetyFactor size : Number).IsReal := by
    intro size
    unfold safetyFactor
    split
    · exact isReal_decimal _ _ _
    · split
      · exact isReal_decimal _ _ _
      · exact isReal_decimal _ _ _
  exact (hsafety t.size).mul_left _

end LayoutSettings

/-- **Layouts stand at doubles.**  Whatever the settings are, the coordinates of a layout are doubles
or zero, its padding is a double, and its lines are no thicker than the settings say where that is a
whole number. -/
theorem allLight_of_layout {bound : Nat} {s : LayoutSettings Number} {t : Term}
    {d : Fragment Number} (hline : s.lineWidth.magnitude ≤ bound) (hfont : 14 ≤ bound)
    (hd : layout s t = .ok d) : AllLight bound d.primitives ∧ d.padding.IsReal := by
  obtain ⟨-, drawn, hrun, rfl⟩ := layout_eq_ok_iff.mp hd
  have hscale := s.isReal_scaleOf t
  have hyields : Paint.Yields ((s.painter t).drawAt t .alone .root) drawn :=
    ⟨.start s, (s.run t).2, Prod.ext hrun rfl⟩
  have hunit : (s.painter t).unit.IsReal := hscale.mul_left s.unitSize
  have hdrawn : AllLight bound drawn.primitives :=
    Painter.allLight_of_yields hunit hline hfont (isReal_decimal _ _ _) (isReal_decimal _ _ _)
      (isReal_decimal _ _ _) hyields
  exact ⟨hdrawn, hscale.mul_left s.padding⟩

end Tromp
