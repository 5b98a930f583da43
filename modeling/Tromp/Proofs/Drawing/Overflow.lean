import Tromp.Drawing.Overflow
import Tromp.Proofs.Arithmetic.Checked
import Tromp.Proofs.Drawing.Labelling
import Tromp.Proofs.Drawing.Weight

/-!
# Moderate drawings do not overflow

Settings are *moderate* when none of their whole numbers is larger than two to the five hundredth.
**A tree of moderate weight is laid out with moderate settings without overflow**
(`layoutOverflow?_eq_none`).

1.  Where the tree is fitted to the canvas whole numbers meet whole numbers.  Their bounds are kept
    (`LayoutSettings.fits_fitNumbers`): no more than two moderate numbers are ever multiplied.  The
    size of a row is computed from a quotient, so it is a double.
2.  From there on everything is a double but for what the settings say and what is counted in the
    tree, and each of these meets doubles only.  A step of painting *ensures* a property of what it
    gives when it does so from every state in which no number overflows, and leaves such a state
    behind (`Painter.ensures_drawAt`).
-/

namespace Tromp

open Checked

/-! ### Moderate numbers -/

/-- A bound for whole numbers: two of them can be multiplied and the product still fits a double. -/
@[irreducible] def moderateBound : Nat := twoTo 500

theorem moderateBound_bounds :
    64 < moderateBound ∧ 64 * moderateBound < overflowBound := by decide +kernel

theorem moderateBound_mul_lt :
    4 * (moderateBound * moderateBound) + 4 * moderateBound < overflowBound := by decide +kernel

/-- The numbers of some settings. -/
def LayoutSettings.numbers {α : Type} (s : LayoutSettings α) : List α :=
  [s.unitSize, s.lineWidth, s.padding, s.width, s.height, s.fitMargin, s.binderOverhang,
    s.labelPadding, s.labelStep]

/-- No whole number among the settings is large. -/
def LayoutSettings.IsModerate (s : LayoutSettings Number) : Prop :=
  ∀ x ∈ s.numbers, x.magnitude ≤ moderateBound

instance (s : LayoutSettings Number) : Decidable s.IsModerate :=
  inferInstanceAs (Decidable (∀ x ∈ s.numbers, x.magnitude ≤ moderateBound))

namespace Checked

variable {a : Checked}

theorem isReal_decimal (m : Nat) (s : Bool) (e : Nat) :
    IsReal (OfScientific.ofScientific m s e) := ⟨_, rfl⟩

theorem Within.fits_moderate (h : Within moderateBound a) : Fits a :=
  h.fits (by have := moderateBound_bounds; omega)

theorem fits_intCast {n : Int} (h : n.natAbs ≤ 2 * moderateBound) : Fits ((n : Int) : Checked) :=
  (within_intCast n).fits (by have := moderateBound_bounds; omega)

theorem fits_ofNat {n : Nat} (h : n ≤ 2 * moderateBound) : Fits (Scalar.ofNat n) := fits_intCast h

theorem fits_zero : Fits Scalar.zero := fits_intCast (Nat.zero_le _)

/-- A few times a moderate number fits. -/
theorem Within.fits_intCast_mul {n : Int} (hn : n.natAbs ≤ 4) (h : Within moderateBound a) :
    Fits ((n : Int) * a) := by
  have hbounds := moderateBound_bounds
  have hproduct := (within_intCast n).mul h (by omega) (by omega)
  refine hproduct.fits (Nat.lt_of_le_of_lt (Nat.mul_le_mul_right _ hn) ?_)
  omega

end Checked

/-! ### Labels -/

/-- The labels that were placed can be moved on without overflow. -/
structure PaintState.IsModerate (st : PaintState Checked) : Prop where
  padding : Fits st.registry.padding
  step : Within moderateBound st.registry.step
  numbers : ∀ v ∈ st.numbers, Fits v

/-- A site that stands at doubles. -/
structure Site.IsReal (site : Site Checked) : Prop where
  x : Checked.IsReal site.x
  y : Checked.IsReal site.y

/-- A label that can be placed without overflow. -/
structure Label.IsModerate (l : Label Checked) : Prop where
  x : Fits l.x
  y : Fits l.y
  fontSize : Within 14 l.fontSize
  length_le : l.text.length ≤ moderateBound + 5

/-- A number of a primitive that was moved is a number of the primitive, with what it was moved by
added to it if it is a coordinate. -/
theorem Primitive.of_mem_numbers_translate {α : Type} [Scalar α] {q : Primitive α} {dx dy v : α}
    (h : v ∈ (q.translate dx dy).numbers) :
    ∃ u ∈ q.numbers, v = u ∨ v = u + dx ∨ v = u + dy := by
  cases q <;> simp only [translate, numbers, List.mem_cons, List.not_mem_nil, or_false,
    exists_eq_or_imp, exists_eq_left] at h ⊢ <;> grind

/-- All numbers of some primitives fit. -/
def AllFit (ps : List (Primitive Checked)) : Prop := ∀ q ∈ ps, ∀ v ∈ q.numbers, Fits v

namespace LabelRegistry

variable {r : LabelRegistry Checked} {x y fontSize : Checked} {text : String}

theorem isReal_candidates (hstep : Within moderateBound r.step) (hx : IsReal x) (hy : IsReal y)
    {c : Checked × Checked} (hc : c ∈ r.candidates x y) : IsReal c.1 ∧ IsReal c.2 := by
  rcases List.mem_cons.mp hc with rfl | hc
  · exact ⟨hx, hy⟩
  · obtain ⟨ring, hring, hc⟩ := List.mem_flatMap.mp hc
    obtain ⟨direction, hdirection, rfl⟩ := List.mem_map.mp hc
    have hcounts : ∀ n ∈ List.range rings, ∀ d ∈ directions,
        (d.1 * (n + 1 : Nat) : Int).natAbs ≤ 4 ∧ (d.2 * (n + 1 : Nat) : Int).natAbs ≤ 4 := by
      decide
    obtain ⟨h1, h2⟩ := hcounts ring hring direction hdirection
    exact ⟨hx.add (hstep.fits_intCast_mul h1), hy.add (hstep.fits_intCast_mul h2)⟩

/-- A label stands at doubles, wherever it is placed. -/
theorem isReal_position (hstep : Within moderateBound r.step) (hx : IsReal x) (hy : IsReal y)
    (hfont : Within 14 fontSize) :
    IsReal (r.position x y text fontSize).1 ∧ IsReal (r.position x y text fontSize).2 := by
  have hbounds := moderateBound_bounds
  unfold position
  cases hfree : (r.candidates x y).find? fun c => r.isFree (r.box c.1 c.2 text fontSize) with
  | some c => exact isReal_candidates hstep hx hy (List.mem_of_find?_eq_some hfree)
  | none =>
      have hheight : IsReal (fontSize * 1.2) :=
        (hfont.fits (by omega)).mul (isReal_decimal _ _ _)
      have hfar : Fits (Scalar.ofNat (rings + 1) * Scalar.greatest r.step (fontSize * 1.2)) := by
        rcases Scalar.greatest_eq r.step (fontSize * 1.2) with h | h
        · rw [h]
          exact hstep.fits_intCast_mul (by decide)
        · rw [h]
          exact ((fits_ofNat (by simp only [rings]; omega)).mul hheight).fits
      exact ⟨hx, hy.sub hfar⟩

theorem fits_box (hpadding : Fits r.padding) (hx : IsReal x) (hy : IsReal y)
    (hfont : Within 14 fontSize) (htext : text.length ≤ moderateBound + 5) :
    ∀ v ∈ (r.box x y text fontSize).numbers, Fits v := by
  have hbounds := moderateBound_bounds
  have hletters : Fits (Scalar.ofNat text.length * fontSize) := by
    refine ((within_ofNat _).mul hfont (by omega) (by omega)).fits ?_
    omega
  have hwidth : IsReal (Scalar.ofNat text.length * fontSize * 0.6) :=
    hletters.mul (isReal_decimal _ _ _)
  have hheight : IsReal (fontSize * 1.2) := (hfont.fits (by omega)).mul (isReal_decimal _ _ _)
  intro v hv
  simp only [box, Box.numbers, Interval.numbers, List.cons_append, List.nil_append, List.mem_cons,
    List.not_mem_nil, or_false] at hv
  rcases hv with rfl | rfl | rfl | rfl
  · exact (hx.sub hpadding).fits
  · exact ((hx.add hwidth.fits).add hpadding).fits
  · exact (hy.sub hheight.fits).fits
  · exact (hy.add hpadding).fits

end LabelRegistry

namespace AllFit

variable {ps qs : List (Primitive Checked)}

theorem nil : AllFit [] := fun _ hq => absurd hq List.not_mem_nil

theorem cons {q : Primitive Checked} (hq : ∀ v ∈ q.numbers, Fits v) (hps : AllFit ps) :
    AllFit (q :: ps) := List.forall_mem_cons.mpr ⟨hq, hps⟩

theorem append (hps : AllFit ps) (hqs : AllFit qs) : AllFit (ps ++ qs) :=
  List.forall_mem_append.mpr ⟨hps, hqs⟩

/-- Moving primitives by doubles, or along one axis only, does not overflow. -/
theorem translate {dx dy : Checked} (h : AllFit ps) (hdx : IsReal dx ∨ dx = Scalar.zero)
    (hdy : IsReal dy ∨ dy = Scalar.zero) : AllFit (ps.map (Primitive.translate dx dy)) := by
  have hmove : ∀ {u d : Checked}, Fits u → IsReal d ∨ d = Scalar.zero → Fits (u + d) := by
    rintro u d hu (hd | rfl)
    · exact (hu.add_real hd).fits
    · exact hu.add_zero
  intro q hq v hv
  obtain ⟨own, hown, rfl⟩ := List.mem_map.mp hq
  obtain ⟨u, hu, rfl | rfl | rfl⟩ := Primitive.of_mem_numbers_translate hv
  · exact h own hown _ hu
  · exact hmove (h own hown u hu) hdx
  · exact hmove (h own hown u hu) hdy

end AllFit

/-! ### The painter -/

/-- A painter whose rows are doubles and whose settings meet doubles without overflow. -/
structure Painter.IsModerate (p : Painter Checked) : Prop where
  unit : IsReal p.unit
  lineWidth : Fits p.settings.lineWidth
  binderOverhang : Fits p.settings.binderOverhang

namespace Painter

open Paint

variable {ε : Type} {p : Painter Checked} {site : Site Checked}

theorem ensures_takeColor :
    Ensures PaintState.IsModerate (p.takeColor (ε := ε)) fun _ => True :=
  ensures_modifyGet fun _ hst => ⟨⟨hst.padding, hst.step, hst.numbers⟩, trivial⟩

/-- **Placing a label** does not overflow. -/
theorem ensures_label {l : Label Checked} (hsite : site.IsReal) (hl : l.IsModerate) :
    Ensures PaintState.IsModerate (label (ε := ε) site l.x l.y l.text l.color l.fontSize)
      fun q => AllFit [q] := by
  have hx : IsReal (site.x + l.x) := hsite.x.add hl.x
  have hy : IsReal (site.y + l.y) := hsite.y.add hl.y
  have hplaced : ∀ st : PaintState Checked, st.IsModerate →
      IsReal (st.registry.position (site.x + l.x) (site.y + l.y) l.text l.fontSize).1 ∧
      IsReal (st.registry.position (site.x + l.x) (site.y + l.y) l.text l.fontSize).2 :=
    fun st hst => LabelRegistry.isReal_position hst.step hx hy hl.fontSize
  refine Ensures.bind (R := fun c => IsReal c.1 ∧ IsReal c.2)
    (ensures_modifyGet fun st hst => ⟨⟨hst.padding, hst.step, ?_⟩, hplaced st hst⟩) ?_
  · intro v hv
    obtain ⟨box, hbox, hv⟩ := List.mem_flatMap.mp hv
    rcases List.mem_append.mp hbox with hbox | hbox
    · exact hst.numbers v (List.mem_flatMap.mpr ⟨box, hbox, hv⟩)
    · obtain rfl := List.mem_singleton.mp hbox
      obtain ⟨hpx, hpy⟩ := hplaced st hst
      exact LabelRegistry.fits_box hst.padding hpx hpy hl.fontSize hl.length_le v hv
  · rintro ⟨px, py⟩ ⟨hpx, hpy⟩
    refine ensures_pure (List.forall_mem_singleton.mpr ?_)
    have hbounds := moderateBound_bounds
    simp only [Primitive.numbers, List.forall_mem_cons]
    exact ⟨(hpx.sub hsite.x.fits).fits, (hpy.sub hsite.y.fits).fits,
      hl.fontSize.fits (by omega), List.forall_mem_nil _⟩

/-- Writing a label that is asked for does not overflow. -/
theorem ensures_write {asked : Option (Label Checked)} (hsite : site.IsReal)
    (hasked : ∀ l ∈ asked, l.IsModerate) :
    Ensures PaintState.IsModerate (p.write (ε := ε) site asked) AllFit := by
  unfold write labelled
  refine Ensures.ite ?_ (ensures_pure AllFit.nil)
  cases asked with
  | none => exact ensures_pure AllFit.nil
  | some l => exact (ensures_label hsite (hasked l rfl)).bind fun q hq => ensures_pure hq

/-! ### What is drawn -/

section Labels

variable {name : Option String} {numeral : Option Int} {index row : Nat} {free : Bool}
  {body f : Tree ε} {color : String}

theorem isModerate_variableLabel (hp : p.IsModerate)
    (hweight : (Tree.var (ε := ε) name (some index) free).weight < moderateBound) :
    (p.variableLabel name index color).IsModerate where
  x := (hp.unit.add (fits_ofNat (by have := moderateBound_bounds; omega))).fits
  y := fits_zero
  fontSize := (within_ofNat 12).mono (by decide)
  length_le := (length_variableText_le.trans hweight.le).trans (Nat.le_add_right _ _)

theorem isModerate_abstractionLabel (hp : p.IsModerate)
    (hweight : (Tree.lam name numeral body).weight < moderateBound) :
    (p.abstractionLabel name numeral body).IsModerate where
  x := (hp.unit.sub (hp.binderOverhang.mul hp.unit).fits).fits
  y := fits_intCast (by have := moderateBound_bounds; omega)
  fontSize := within_ofNat 14
  length_le := length_abstractionText_le.trans (Nat.add_le_add_right hweight.le 5)

theorem isModerate_operatorLabel (hp : p.IsModerate) (hweight : f.weight < moderateBound)
    (hrow : row ≤ 2 * moderateBound) : ∀ l ∈ p.operatorLabel? f row, l.IsModerate := by
  intro l hl
  obtain ⟨name, hname, rfl⟩ := Option.map_eq_some_iff.mp hl
  have hheight : IsReal (Scalar.ofNat row * p.unit) := (fits_ofNat hrow).mul hp.unit
  exact
    { x := hp.unit.fits
      y := (hheight.add (fits_ofNat (by have := moderateBound_bounds; omega))).fits
      fontSize := (within_ofNat 12).mono (by decide)
      length_le := ((length_operator_le hname).trans hweight.le).trans (Nat.le_add_right _ _) }

end Labels

theorem ensures_drawVariable {name : Option String} {index : Option Nat} {free : Bool}
    (hp : p.IsModerate) (hsite : site.IsReal)
    (hweight : (Tree.var (ε := ε) name index free).weight < moderateBound) :
    Ensures PaintState.IsModerate (p.drawVariable (ε := ε) name index free site)
      fun d => AllFit d.primitives := by
  refine (ensures_ofExcept fun c hc => index_of_variableColor hc).bind ?_
  rintro ⟨color, i⟩ rfl
  have hindex : i < moderateBound := by
    simp only [Tree.weight, Option.getD_some] at hweight
    omega
  have hlabel : ∀ l ∈ some (p.variableLabel name i color), l.IsModerate := by
    rintro l ⟨⟩
    exact isModerate_variableLabel hp hweight
  refine (ensures_write hsite hlabel).bind fun labels hlabels => ensures_pure ?_
  refine AllFit.cons ?_ hlabels
  have htop : IsReal (((-(i + 1) : Int) : Checked) * p.unit) :=
    (fits_intCast (by omega)).mul hp.unit
  simp only [Primitive.numbers, List.forall_mem_cons]
  exact ⟨hp.unit.fits, fits_zero, hp.unit.fits, htop.fits, hp.lineWidth, List.forall_mem_nil _⟩

theorem ensures_drawAbstraction {name : Option String} {numeral : Option Int} {body : Tree ε}
    {drawBody : Site Checked → Paint Checked ε (Fragment Checked)} (hp : p.IsModerate)
    (hsite : site.IsReal) (hweight : (Tree.lam name numeral body).weight < moderateBound)
    (hbody : ∀ own : Site Checked, own.IsReal → Ensures PaintState.IsModerate (drawBody own)
      fun d => AllFit d.primitives ∧ d.width ≤ moderateBound) :
    Ensures PaintState.IsModerate (p.drawAbstraction name numeral body drawBody site)
      fun d => AllFit d.primitives := by
  refine Ensures.ite_bind (ensures_pure trivial) ensures_takeColor fun color _ => ?_
  refine Ensures.bind (hbody _ ?_) ?_
  · exact ⟨hsite.x, hsite.y.add hp.unit.fits⟩
  rintro inner ⟨hinner, hwidth⟩
  have hlabel : ∀ l ∈ some (p.abstractionLabel name numeral body), l.IsModerate := by
    rintro l ⟨⟩
    exact isModerate_abstractionLabel hp hweight
  refine (ensures_write hsite hlabel).bind fun labels hlabels => ensures_pure ?_
  have hoverhang : IsReal (p.settings.binderOverhang * p.unit) := hp.binderOverhang.mul hp.unit
  have hcolumns : IsReal (Scalar.ofNat (2 * (inner.width - 1)) * p.unit) :=
    (fits_ofNat (by omega)).mul hp.unit
  have hthick : IsReal (p.settings.lineWidth * 1.2) := hp.lineWidth.mul (isReal_decimal _ _ _)
  refine (AllFit.cons ?_ hlabels).append (hinner.translate (.inr rfl) (.inl hp.unit))
  simp only [Primitive.numbers, List.forall_mem_cons]
  exact ⟨(hp.unit.sub hoverhang.fits).fits, fits_zero,
    ((hp.unit.add hcolumns.fits).add hoverhang.fits).fits, fits_zero, hthick.fits,
    List.forall_mem_nil _⟩

theorem ensures_applicationColor {a : Tree ε} {binders : List String} :
    Ensures PaintState.IsModerate (p.applicationColor a binders) fun _ => True := by
  unfold applicationColor
  split
  · split
    · exact ensures_pure trivial
    · exact ensures_takeColor
  · exact ensures_takeColor

/-- The numbers of a joint fit. -/
theorem allFit_joint {drawn : Fragment Checked} {argumentStem row : Nat} {color : String}
    (hp : p.IsModerate) (hwidth : drawn.width ≤ moderateBound)
    (hstem : drawn.stem ≤ moderateBound) (hargument : argumentStem ≤ moderateBound)
    (hrow : row ≤ moderateBound) : AllFit (p.joint drawn argumentStem row color) := by
  have hcount : ∀ {n : Nat}, n ≤ 2 * moderateBound → IsReal (Scalar.ofNat n * p.unit) :=
    fun hn => (fits_ofNat hn).mul hp.unit
  have hbar : IsReal (Scalar.ofNat row * p.unit) := hcount (by omega)
  have hright : IsReal (p.unit + Scalar.ofNat (2 * drawn.width) * p.unit) :=
    hp.unit.add (hcount (by omega)).fits
  have hline : ∀ {x1 y1 x2 y2 : Checked}, IsReal x1 → IsReal y1 → IsReal x2 → IsReal y2 →
      AllFit [.line ⟨x1, y1, x2, y2, color, p.settings.lineWidth, false⟩] := by
    intro x1 y1 x2 y2 h1 h2 h3 h4
    refine AllFit.cons ?_ AllFit.nil
    simp only [Primitive.numbers, List.forall_mem_cons]
    exact ⟨h1.fits, h2.fits, h3.fits, h4.fits, hp.lineWidth, List.forall_mem_nil _⟩
  have hfiller : ∀ {x : Checked} {stem : Nat}, IsReal x → stem ≤ moderateBound →
      AllFit (if stem < row then [.line ⟨x, Scalar.ofNat stem * p.unit, x,
        Scalar.ofNat row * p.unit, color, p.settings.lineWidth, false⟩] else []) := by
    intro x stem hx hle
    split
    · exact hline hx (hcount (by omega)) hx hbar
    · exact AllFit.nil
  have hdot : AllFit (if p.settings.hideApplicationSymbols then [] else
      [Primitive.dot ⟨p.unit + Scalar.ofNat (2 * drawn.width) * p.unit, Scalar.ofNat row * p.unit,
        p.settings.lineWidth * 1.5, color⟩]) := by
    split
    · exact AllFit.nil
    · refine AllFit.cons ?_ AllFit.nil
      simp only [Primitive.numbers, List.forall_mem_cons]
      exact ⟨hright.fits, hbar.fits, (hp.lineWidth.mul (isReal_decimal _ _ _)).fits,
        List.forall_mem_nil _⟩
  exact ((hfiller hp.unit hstem).append (hfiller hright hargument)).append
    ((hline hp.unit hbar hright hbar).append hdot)

theorem ensures_join {f a : Tree ε} {drawn : Fragment Checked} {argumentStem row : Nat}
    (hp : p.IsModerate) (hsite : site.IsReal) (hweight : f.weight < moderateBound)
    (hwidth : drawn.width ≤ moderateBound) (hstem : drawn.stem ≤ moderateBound)
    (hargument : argumentStem ≤ moderateBound) (hrow : row ≤ moderateBound) :
    Ensures PaintState.IsModerate (p.join f a drawn argumentStem row site) AllFit := by
  rw [join_eq_write]
  refine ensures_applicationColor.bind fun color _ => ?_
  have hlabel : ∀ l ∈ p.operatorLabel? f row, l.IsModerate :=
    isModerate_operatorLabel hp hweight (by omega)
  refine (ensures_write hsite hlabel).bind fun labels hlabels => ensures_pure ?_
  exact (allFit_joint hp hwidth hstem hargument hrow).append hlabels

theorem ensures_inFrame {position : Position Checked}
    {draw : Site Checked → Paint Checked ε (Fragment Checked)} (hsite : site.IsReal)
    (hposition : IsReal position.offset)
    (h : ∀ own : Site Checked, own.IsReal →
      Ensures PaintState.IsModerate (draw own) fun d => AllFit d.primitives) :
    Ensures PaintState.IsModerate (inFrame position site draw) fun d => AllFit d.primitives := by
  cases position with
  | alone => exact h site hsite
  | argument offset =>
      refine Ensures.bind (h _ ?_) fun d hd => ?_
      · exact ⟨hsite.x.add hposition.fits, hsite.y⟩
      · exact ensures_pure (hd.translate (.inl hposition) (.inr rfl))

/-- **A tree of moderate weight is drawn without overflow**, at every position of a site that stands
at doubles. -/
theorem ensures_drawAt {t : Tree ε} {position : Position Checked} (hp : p.IsModerate)
    (hweight : t.weight < moderateBound) (hsite : site.IsReal)
    (hposition : IsReal position.offset) :
    Ensures PaintState.IsModerate (p.drawAt t position site) fun d => AllFit d.primitives := by
  induction t generalizing position site with
  | foreign value => exact ensures_throw
  | var name index free =>
      exact ensures_inFrame hsite hposition fun own hown => ensures_drawVariable hp hown hweight
  | lam name numeral body ih =>
      have hbody : body.weight < moderateBound := Nat.lt_of_le_of_lt Tree.weight_body_le hweight
      rw [drawAt]
      refine Ensures.ite ensures_throw ?_
      refine ensures_inFrame hsite hposition fun own hown => ?_
      refine ensures_drawAbstraction hp hown hweight fun inner hinner => ?_
      refine (ih hbody hinner (isReal_decimal _ _ _)).imp fun d hd hyields => ?_
      exact ⟨hd, (size_le_weight hyields).1.trans hbody.le⟩
  | app f a ihf iha =>
      have hf : f.weight < moderateBound := Nat.lt_of_le_of_lt Tree.weight_func_le hweight
      have ha : a.weight < moderateBound := Nat.lt_of_le_of_lt Tree.weight_arg_le hweight
      have hown : (site.right position.offset).IsReal :=
        ⟨hsite.x.add hposition.fits, hsite.y⟩
      rw [drawAt]
      refine Ensures.ite ensures_throw ?_
      refine Ensures.bind ((ihf hf hown (isReal_decimal _ _ _)).imp fun d hd hyields =>
        And.intro hd (size_le_weight hyields)) ?_
      rintro function ⟨hfunction, hfwidth, hfheight, hfstem⟩
      have hcolumns : IsReal (Scalar.ofNat (2 * function.width) * p.unit) :=
        (fits_ofNat (by omega)).mul hp.unit
      have hright : IsReal (Position.argument
          (position.offset + Scalar.ofNat (2 * function.width) * p.unit)).offset :=
        hposition.add hcolumns.fits
      refine Ensures.bind ((iha ha hsite hright).imp fun d hd hyields =>
        And.intro hd (size_le_weight hyields)) ?_
      rintro argument ⟨hargument, hawidth, haheight, hastem⟩
      refine (ensures_join hp hown hf (by omega) (by omega) (by omega) (by omega)).bind ?_
      intro bars hbars
      refine ensures_pure ?_
      exact ((hbars.translate (.inl hposition) (.inr rfl)).append
        (hfunction.translate (.inl hposition) (.inr rfl))).append hargument

end Painter

/-! ### The whole layout -/

namespace LayoutSettings

variable {s : LayoutSettings Number} {t : Term}

theorem isReal_safetyFactor (size : Nat) : IsReal (safetyFactor size) := by
  unfold safetyFactor
  split
  · exact isReal_decimal _ _ _
  · split
    · exact isReal_decimal _ _ _
    · exact isReal_decimal _ _ _

theorem fits_available {side margin : Checked} (hside : Within moderateBound side)
    (hmargin : Within moderateBound margin) : Fits (available side margin) := by
  have hbounds := moderateBound_bounds
  have hrest : Within (moderateBound + moderateBound) (side - margin) :=
    hside.sub hmargin (by omega) (by omega)
  unfold available
  split
  · exact hside.fits_moderate
  · exact hrest.fits (by omega)

/-- So many rows or columns, twice as many at most, and the padding on both sides. -/
theorem fits_unfitted {rows unit padding : Checked} (hrows : Within (2 * moderateBound) rows)
    (hunit : Within moderateBound unit) (hpadding : Within moderateBound padding) :
    Fits (rows * unit + Scalar.ofNat 2 * padding) := by
  have hbounds := moderateBound_bounds
  have hproduct := moderateBound_mul_lt
  have hsize := hrows.mul hunit (by omega) (by omega)
  have hmargins := (within_ofNat 2).mul hpadding (by omega) (by omega)
  rw [Nat.mul_assoc] at hsize
  exact (hsize.add hmargins (by omega) (by omega)).fits (by omega)

/-- The numbers of moderate settings are moderate as checked numbers too. -/
theorem IsModerate.within (hs : s.IsModerate) :
    ∀ v ∈ s.checked.numbers, Within moderateBound v := by
  have hmap : s.checked.numbers = s.numbers.map .ok := rfl
  rw [hmap, List.forall_mem_map]
  exact fun x hx => ⟨x, rfl, hs x hx⟩

/-- **Fitting to the canvas** does not overflow, and the size of a row is a double. -/
theorem fits_fitNumbers (hs : s.IsModerate) (hwidth : t.width ≤ moderateBound)
    (hheight : t.height < moderateBound) :
    (∀ v ∈ s.checked.fitNumbers t, Fits v) ∧ IsReal (s.checked.scaleOf t) ∧
      IsReal (s.checked.unitSize * s.checked.scaleOf t) := by
  have hbounds := moderateBound_bounds
  have hwithin := hs.within
  simp only [numbers, List.forall_mem_cons] at hwithin
  obtain ⟨hunit, -, hpadding, hcanvasWidth, hcanvasHeight, hmargin, -⟩ := hwithin
  have hacross : Fits (s.checked.unfittedWidth (Scalar.ofNat t.width)) :=
    fits_unfitted (((within_ofNat 2).mul (within_ofNat t.width) (by omega) (by omega)).mono
      (by omega)) hunit hpadding
  have hdown : Fits (s.checked.unfittedHeight (Scalar.ofNat t.height)) :=
    fits_unfitted (((within_ofNat t.height).add (within_ofNat 1) (by omega) (by omega)).mono
      (by omega)) hunit hpadding
  have hfreeWidth : Fits (available s.checked.width s.checked.fitMargin) :=
    fits_available hcanvasWidth hmargin
  have hfreeHeight : Fits (available s.checked.height s.checked.fitMargin) :=
    fits_available hcanvasHeight hmargin
  have hscale : IsReal (s.checked.scaleOf t) := by
    have hsafety := isReal_safetyFactor t.size
    rcases Scalar.least_eq (available s.checked.width s.checked.fitMargin /
        s.checked.unfittedWidth (Scalar.ofNat t.width))
      (available s.checked.height s.checked.fitMargin /
        s.checked.unfittedHeight (Scalar.ofNat t.height)) with h | h
    · rw [scaleOf, fitScale, h]
      exact (hfreeWidth.div hacross).fits.mul hsafety
    · rw [scaleOf, fitScale, h]
      exact (hfreeHeight.div hdown).fits.mul hsafety
  have hrow : IsReal (s.checked.unitSize * s.checked.scaleOf t) := hunit.fits_moderate.mul hscale
  refine ⟨?_, hscale, hrow⟩
  simp only [fitNumbers, List.forall_mem_cons]
  exact ⟨hacross, hdown, hfreeWidth, hfreeHeight, (hfreeWidth.div hacross).fits,
    (hfreeHeight.div hdown).fits, hrow.fits, List.forall_mem_nil _⟩

end LayoutSettings

/-- **Moderate layouts do not overflow.** -/
theorem layoutOverflow?_eq_none {ε : Type} {s : LayoutSettings Number} {t : Tree ε}
    (hs : s.IsModerate) (hweight : t.weight < moderateBound) : layoutOverflow? s t = none := by
  refine Checked.overflow?_eq_none ?_
  unfold layoutNumbers
  cases hdrawable : t.drawable with
  | error fault => exact List.forall_mem_nil _
  | ok term =>
      obtain ⟨hcheck, hvalid⟩ := Tree.drawable_eq_ok_iff.mp hdrawable
      obtain ⟨hwidth, hheight⟩ := Tree.size_le_weight hcheck
      obtain ⟨hfit, hscale, hrow⟩ := LayoutSettings.fits_fitNumbers (t := term) hs
        (hwidth.trans hweight.le) (Nat.lt_of_le_of_lt hheight hweight)
      have hwithin := hs.within
      simp only [LayoutSettings.numbers, List.forall_mem_cons] at hwithin
      obtain ⟨-, hline, hpadding, -, -, -, hoverhang, hlabelPadding, hlabelStep, -⟩ := hwithin
      have hpainter : (s.checked.painter term).IsModerate :=
        ⟨hrow, hline.fits_moderate, hoverhang.fits_moderate⟩
      have hstart : (PaintState.start s.checked).IsModerate :=
        ⟨hlabelPadding.fits_moderate, hlabelStep, List.forall_mem_nil _⟩
      have hroot : (Site.root (α := Checked)).IsReal :=
        ⟨isReal_decimal _ _ _, isReal_decimal _ _ _⟩
      have hdraw : ((s.checked.painter term).draw t .root).Succeeds := by
        refine Painter.succeeds_drawAt_of_check hcheck ?_ .alone
        exact hvalid
      obtain ⟨d, after, hrun⟩ := hdraw (.start s.checked)
      obtain ⟨hafter, hd⟩ := Painter.ensures_drawAt hpainter hweight hroot
        (isReal_decimal _ _ _) _ _ _ hstart hrun
      have hdrawn : ∀ v ∈ d.numbers ++ after.numbers, Fits v := by
        refine List.forall_mem_append.mpr ⟨?_, hafter.numbers⟩
        intro v hv
        obtain ⟨q, hq, hv⟩ := List.mem_flatMap.mp hv
        exact hd q hq v hv
      have hnumbers : drawnNumbers (((s.checked.painter term).draw t .root).run.run
          (.start s.checked)) = d.numbers ++ after.numbers := by
        rw [hrun]
        rfl
      have hall := List.forall_mem_append.mpr ⟨List.forall_mem_append.mpr ⟨hfit, hdrawn⟩,
        List.forall_mem_singleton.mpr (hpadding.fits_moderate.mul hscale).fits⟩
      rw [← hnumbers] at hall
      exact hall

end Tromp
