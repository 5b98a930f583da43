import Mathlib.Order.Interval.Set.Defs
import Tromp.Proofs.Drawing.Boxes
import Tromp.Proofs.Drawing.Labelling
import Tromp.Proofs.Drawing.Lines
import Tromp.Proofs.Drawing.Success
import Tromp.Proofs.Term.Resolution
import Tromp.Svg.Picture
import Tromp.Source.Parser
import Tromp.Term.Numeral

/-!
# The diagram lies on its canvas

The factor of a diagram is fitted before anything is drawn, to a footprint of two rows for each
column and one row more than the term is high.  The drawing keeps to that footprint
(`Painter.Shows.segment_bounds_le`): bars hang over by no more than the half column that is free on
both sides, and the line of a free variable, whose index is zero, rises one row above everything
else.

Where only lines are drawn the bounds of a drawing are therefore no larger than its footprint, and
wherever it is anchored it keeps the padding to all sides of the canvas
(`layout_liesOn`).
-/

namespace Tromp

namespace Painter

variable {p : Painter Rat} {t : Term} {d : Fragment Rat}

/-! ### Only lines -/

/-- Some primitives are all lines. -/
def OnlyLines (ps : List (Primitive Rat)) : Prop := ∀ q ∈ ps, ∃ line, q = .line line

theorem OnlyLines.append {ps qs : List (Primitive Rat)} (hps : OnlyLines ps) (hqs : OnlyLines qs) :
    OnlyLines (ps ++ qs) := fun q hq => (List.mem_append.mp hq).elim (hps q) (hqs q)

theorem OnlyLines.cons {line : Segment Rat} {ps : List (Primitive Rat)} (hps : OnlyLines ps) :
    OnlyLines (.line line :: ps) := List.forall_mem_cons.mpr ⟨⟨line, rfl⟩, hps⟩

theorem OnlyLines.translate (hd : OnlyLines d.primitives) (dx dy : Rat) :
    OnlyLines (d.translate dx dy).primitives := by
  intro q hq
  obtain ⟨own, hown, rfl⟩ := List.mem_map.mp hq
  obtain ⟨line, rfl⟩ := hd own hown
  exact ⟨_, rfl⟩

/-- A joint without its dot is all lines. -/
theorem onlyLines_joint (hdots : p.settings.hideApplicationSymbols = true) (drawn : Fragment Rat)
    (argumentStem row : Nat) (color : String) :
    OnlyLines (p.joint drawn argumentStem row color) := by
  intro q hq
  obtain hline | ⟨hshown, -⟩ := of_mem_joint hq
  · exact hline
  · rw [hdots] at hshown
    cases hshown

/-- Where labels are off nothing is written. -/
theorem eq_nil_of_yields_labelled (hlabels : p.settings.showLabels = false) {site : Site Rat}
    {x : Paint Rat Empty (List (Primitive Rat))} {ps : List (Primitive Rat)}
    (h : Paint.Yields (p.labelled site x) ps) : ps = [] := by
  rw [labelled, hlabels] at h
  exact Paint.yields_pure h

/-- **Only lines are drawn** where labels and the dots of junctions are off. -/
theorem onlyLines_of_yields (hlabels : p.settings.showLabels = false)
    (hdots : p.settings.hideApplicationSymbols = true) {site : Site Rat}
    (h : Paint.Yields (p.drawNested t site) d) : OnlyLines d.primitives := by
  have hnil : OnlyLines [] := nofun
  induction t using Term.induction generalizing site d with
  | var name index free =>
      obtain ⟨⟨color, i⟩, -, hrest⟩ := Paint.yields_bind h
      obtain ⟨labels, hnone, hd⟩ := Paint.yields_bind hrest
      rw [Paint.yields_pure hd, eq_nil_of_yields_labelled hlabels hnone]
      exact hnil.cons
  | lam name numeral body ih =>
      obtain ⟨color, hrest⟩ := Paint.yields_ite_bind h
      obtain ⟨inner, hinner, hrest⟩ := Paint.yields_bind hrest
      obtain ⟨labels, hnone, hd⟩ := Paint.yields_bind hrest
      rw [Paint.yields_pure hd, eq_nil_of_yields_labelled hlabels hnone]
      exact ((ih hinner).translate Scalar.zero p.unit).cons
  | app f a ihf iha =>
      obtain ⟨function, hfunction, hrest⟩ := Paint.yields_bind h
      obtain ⟨argument, hargument, hrest⟩ := Paint.yields_bind hrest
      obtain ⟨bars, hbars, hd⟩ := Paint.yields_bind hrest
      rw [join_eq_write] at hbars
      obtain ⟨color, -, hbars⟩ := Paint.yields_bind hbars
      obtain ⟨labels, hnone, hbars⟩ := Paint.yields_bind hbars
      rw [Paint.yields_pure hd, Paint.yields_pure hbars, eq_nil_of_yields_labelled hlabels hnone]
      have hjoint := onlyLines_joint hdots function argument.stem
        (max function.height argument.height) color
      exact ((hjoint.append hnil).append (ihf hfunction)).append ((iha hargument).translate _ _)

/-! ### The footprint -/

/-- The room that a term takes in its own frame: two rows for each column, and one row more than it
is high. -/
def footprint (p : Painter Rat) (t : Term) : Box Rat :=
  ⟨.between 0 (2 * t.width * p.unit), .between (-p.unit) (t.height * p.unit)⟩

/-- No stroke rises more than one row above the term if no free variable does. -/
theorem Shows.rows_of_mem_strokes (h : p.Shows t [] d) (hfree : t.FreeAtZero) {k : Stroke} (hk : k ∈ t.strokes) :
    (-1 ≤ k.row1 ∧ k.row1 ≤ t.height) ∧ (-1 ≤ k.row2 ∧ k.row2 ≤ t.height) := by
  have hfits := Term.fits_of_mem_strokes hk
  have hrow := hfits.row_nonneg
  cases hrole : k.role with
  | «variable» =>
      obtain ⟨-, hup, hlast⟩ := hfits.of_variable hrole
      obtain ⟨name, i, free, hat, hmoved⟩ := Term.exists_var_of_mem_strokes hk hrole
      have hend : (k.node.depth : Int) + -(i + 1) = k.row2 := congrArg Stroke.row2 hmoved
      obtain ⟨colors, hcolors, -⟩ := h.segments_eq
      obtain ⟨j, hj, -, hbound⟩ := hcolors _ _ _ _ hat
      cases hj
      have hi : i ≤ k.node.depth := by
        cases free with
        | true =>
            obtain rfl := Option.some.inj (hfree _ _ _ hat)
            exact Nat.zero_le _
        | false =>
            obtain ⟨hlength, -⟩ := List.getElem?_eq_some_iff.mp (hbound rfl)
            simp only [List.append_nil, List.length_map, Address.length_enclosing] at hlength
            exact hlength.le
      omega
  | abstraction | application =>
      obtain ⟨hlevel, hlast, -⟩ := hfits.of_bar (by rw [hrole]; rfl)
      omega
  | functionFiller | argumentFiller =>
      obtain ⟨-, hdown, hlast⟩ := hfits.of_filler (by rw [hrole]; rfl)
      omega

/-- **Lines keep to the footprint**, as long as bars hang over by no more than half a column. -/
theorem Shows.segment_bounds_le (h : p.Shows t [] d) (hfree : t.FreeAtZero)
    (hunit : 0 ≤ p.unit) (hnonneg : 0 ≤ p.settings.binderOverhang)
    (hoverhang : p.settings.binderOverhang ≤ 1) {line : Segment Rat} (hline : line ∈ d.segments) :
    (Primitive.line line).bounds ≤ p.footprint t := by
  obtain ⟨colors, -, hsegments⟩ := h.segments_eq
  rw [hsegments] at hline
  obtain ⟨k, hk, rfl⟩ := List.mem_map.mp hline
  obtain ⟨⟨hrow1, hrow1'⟩, hrow2, hrow2'⟩ := h.rows_of_mem_strokes hfree hk
  have hcolumns := (Term.fits_of_mem_strokes hk).column_le
  have hcolumn := (Term.fits_of_mem_strokes hk).column_lt
  have hover : 0 ≤ p.overhang k.role ∧ p.overhang k.role ≤ p.unit := by
    cases k.role with
    | abstraction =>
        exact ⟨mul_nonneg hnonneg hunit, mul_le_of_le_one_left hunit hoverhang⟩
    | «variable» | application | functionFiller | argumentFiller => exact ⟨le_rfl, hunit⟩
  have hrows : ∀ {row : Int}, -1 ≤ row → row ≤ t.height →
      -p.unit ≤ row * p.unit ∧ row * p.unit ≤ t.height * p.unit := by
    intro row hlow hhigh
    have hlow' : (-1 : Rat) ≤ row := by exact_mod_cast hlow
    have hhigh' : (row : Rat) ≤ t.height := by exact_mod_cast hhigh
    refine ⟨?_, mul_le_mul_of_nonneg_right hhigh' hunit⟩
    calc -p.unit = -1 * p.unit := (neg_one_mul _).symm
      _ ≤ row * p.unit := mul_le_mul_of_nonneg_right hlow' hunit
  have hfirst := column_mono hunit (Nat.zero_le k.column1)
  have hmiddle := column_mono hunit hcolumns
  have hlast := column_mono hunit (Nat.le_sub_one_of_lt hcolumn)
  have hwidth : (2 * ((t.width - 1 : Nat) : Rat) + 1) * p.unit + p.unit = 2 * t.width * p.unit := by
    rw [Nat.cast_pred t.width_pos]
    ring
  have hone := hrows hrow1 hrow1'
  have htwo := hrows hrow2 hrow2'
  simp only [Primitive.bounds, Interval.spanning, List.foldl_cons, List.foldl_nil,
    Scalar.least_rat, Scalar.greatest_rat, footprint, Box.le_iff, Interval.between_le_between_iff,
    segment, le_min_iff, max_le_iff]
  rw [Nat.cast_zero] at hfirst
  refine ⟨⟨⟨?_, ?_⟩, ?_, ?_⟩, ⟨hone.1, htwo.1⟩, hone.2, htwo.2⟩ <;> linarith

end Painter

/-! ### The canvas -/

/-- Both ends of a line lie in a rectangle. -/
structure Segment.EndsWithin (line : Segment Rat) (left right top bottom : Rat) : Prop where
  x1 : line.x1 ∈ Set.Icc left right
  x2 : line.x2 ∈ Set.Icc left right
  y1 : line.y1 ∈ Set.Icc top bottom
  y2 : line.y2 ∈ Set.Icc top bottom

theorem Segment.endsWithin_of_bounds_le {line : Segment Rat} {left right top bottom : Rat}
    (h : (Primitive.line line).bounds ≤ ⟨.between left right, .between top bottom⟩) :
    line.EndsWithin left right top bottom := by
  simp only [Primitive.bounds, Interval.spanning, List.foldl_cons, List.foldl_nil,
    Scalar.least_rat, Scalar.greatest_rat, Box.le_iff, Interval.between_le_between_iff,
    le_min_iff, max_le_iff] at h
  obtain ⟨⟨⟨hx1, hx2⟩, hx1', hx2'⟩, ⟨hy1, hy2⟩, hy1', hy2'⟩ := h
  exact ⟨⟨hx1, hx1'⟩, ⟨hx2, hx2'⟩, ⟨hy1, hy1'⟩, hy2, hy2'⟩

theorem Segment.EndsWithin.translate {line : Segment Rat}
    {left right top bottom left' right' top' bottom' dx dy : Rat}
    (h : line.EndsWithin left right top bottom) (hx : left' ≤ left + dx ∧ right + dx ≤ right')
    (hy : top' ≤ top + dy ∧ bottom + dy ≤ bottom') :
    (line.translate dx dy).EndsWithin left' right' top' bottom' where
  x1 := ⟨hx.1.trans (add_le_add_left h.x1.1 dx), (add_le_add_left h.x1.2 dx).trans hx.2⟩
  x2 := ⟨hx.1.trans (add_le_add_left h.x2.1 dx), (add_le_add_left h.x2.2 dx).trans hx.2⟩
  y1 := ⟨hy.1.trans (add_le_add_left h.y1.1 dy), (add_le_add_left h.y1.2 dy).trans hy.2⟩
  y2 := ⟨hy.1.trans (add_le_add_left h.y2.1 dy), (add_le_add_left h.y2.2 dy).trans hy.2⟩

/-- **Anchored diagrams keep their padding.**  A drawing whose bounds leave room for its padding on
both sides of the canvas keeps it once it is anchored. -/
theorem RenderSettings.offset_keeps_padding (s : RenderSettings Rat) {d : Fragment Rat}
    {left right top bottom : Rat}
    (hbounds : d.bounds = ⟨.between left right, .between top bottom⟩)
    (hwidth : right - left + 2 * d.padding ≤ s.width)
    (hheight : bottom - top + 2 * d.padding ≤ s.height) :
    (d.padding ≤ left + (s.offset d).1 ∧ right + (s.offset d).1 ≤ s.width - d.padding) ∧
      d.padding ≤ top + (s.offset d).2 ∧ bottom + (s.offset d).2 ≤ s.height - d.padding := by
  rw [offset, hbounds]
  cases s.anchor with
  | topLeft =>
      refine ⟨⟨?_, ?_⟩, ?_, ?_⟩ <;> simp only <;> linarith
  | center =>
      simp only [Scalar.ofNat_rat, Nat.cast_ofNat]
      refine ⟨⟨?_, ?_⟩, ?_, ?_⟩ <;> linarith

section Layout

variable {s : RenderSettings Rat} {t : Term} {d : Fragment Rat}

/-- The bounds of a layout of lines alone are no larger than the footprint of its term. -/
theorem bounds_le_footprint_of_layout (hs : s.IsAccepted) (hlabels : s.showLabels = false)
    (hdots : s.hideApplicationSymbols = true) (hoverhang : s.binderOverhang ≤ 1)
    (hfree : t.FreeAtZero)
    (hd : layout s.toLayoutSettings t = .ok d) :
    d.bounds ≤ (s.toLayoutSettings.painter t).footprint t := by
  obtain ⟨drawn, hrun, rfl⟩ := exists_drawNested_of_layout hd
  have hyields : Paint.Yields ((s.toLayoutSettings.painter t).drawNested t .root) drawn :=
    ⟨_, _, hrun⟩
  have hunit := hs.layout.bounds.unitSize_mul_scaleOf_pos t
  refine Fragment.bounds_le_iff.mpr fun q hq => ?_
  obtain ⟨line, rfl⟩ := Painter.onlyLines_of_yields hlabels hdots hyields q hq
  have hline : line ∈ drawn.segments := List.mem_filterMap.mpr ⟨_, hq, rfl⟩
  exact (Painter.shows_of_yields hyields).segment_bounds_le hfree hunit.le
    hs.layout.bounds.binderOverhang_nonneg hoverhang hline

/-- The footprint of a term, with the padding on all sides, fits the canvas. -/
theorem footprint_fits (hs : s.IsAccepted) (hd : layout s.toLayoutSettings t = .ok d) :
    2 * t.width * (s.toLayoutSettings.painter t).unit + 2 * d.padding ≤ s.width ∧
      (t.height + 1) * (s.toLayoutSettings.painter t).unit + 2 * d.padding ≤ s.height := by
  obtain ⟨-, drawn, -, rfl⟩ := layout_eq_ok_iff.mp hd
  have hwidth : (0 : Rat) < t.width := Nat.cast_pos.mpr t.width_pos
  obtain ⟨hacross, hdown⟩ :=
    hs.layout.bounds.fitScale_mul_le hwidth (Nat.cast_nonneg t.height) t.size
  constructor
  · calc 2 * t.width * (s.unitSize * s.scaleOf t) + 2 * (s.padding * s.scaleOf t)
        = s.scaleOf t * s.unfittedWidth t.width := by
          simp only [LayoutSettings.unfittedWidth, Scalar.ofNat_rat]
          push_cast
          ring
      _ ≤ s.width := hacross
  · calc (t.height + 1) * (s.unitSize * s.scaleOf t) + 2 * (s.padding * s.scaleOf t)
        = s.scaleOf t * s.unfittedHeight t.height := by
          simp only [LayoutSettings.unfittedHeight, Scalar.ofNat_rat]
          push_cast
          ring
      _ ≤ s.height := hdown

/-- A drawing on a canvas: with its padding, which is not negative, to all sides. -/
structure Fragment.LiesOn (d : Fragment Rat) (s : RenderSettings Rat) : Prop where
  padding_nonneg : 0 ≤ d.padding
  endsWithin : ∀ line ∈ d.segments,
    (line.translate (s.offset d).1 (s.offset d).2).EndsWithin d.padding (s.width - d.padding)
      d.padding (s.height - d.padding)

/-- Layouts of lines alone lie on the canvas when no free variable rises more than one row. -/
theorem liesOn_of_layout (hs : s.IsAccepted) (hlabels : s.showLabels = false)
    (hdots : s.hideApplicationSymbols = true) (hoverhang : s.binderOverhang ≤ 1)
    (hfree : t.FreeAtZero)
    (hd : layout s.toLayoutSettings t = .ok d) : d.LiesOn s := by
  have hfootprint := bounds_le_footprint_of_layout hs hlabels hdots hoverhang hfree hd
  obtain ⟨hwidth, hheight⟩ := footprint_fits hs hd
  refine ⟨?_, fun line hline => ?_⟩
  · obtain ⟨-, drawn, -, rfl⟩ := layout_eq_ok_iff.mp hd
    have hscale := hs.layout.bounds.fitScale_pos (Nat.cast_pos.mpr t.width_pos)
      (Nat.cast_nonneg t.height) t.size
    exact mul_nonneg hs.layout.bounds.padding_nonneg hscale.le
  · have hinside : (Primitive.line line).bounds ≤ d.bounds := by
      obtain ⟨q, hq, hline⟩ := List.mem_filterMap.mp hline
      cases q with
      | line own =>
          cases hline
          exact Fragment.bounds_le hq
      | label | dot => cases hline
    -- There is a line, so the bounds are not empty.
    obtain ⟨left, right, top, bottom, hbounds⟩ := Box.exists_eq_of_le hinside
    rw [hbounds] at hinside hfootprint
    obtain ⟨⟨hleft, hright⟩, htop, hbottom⟩ :
        (0 ≤ left ∧ right ≤ 2 * t.width * (s.toLayoutSettings.painter t).unit) ∧
          -(s.toLayoutSettings.painter t).unit ≤ top ∧
            bottom ≤ t.height * (s.toLayoutSettings.painter t).unit := by
      simpa [Painter.footprint, Box.le_iff, Interval.between_le_between_iff] using hfootprint
    obtain ⟨hx, hy⟩ := s.offset_keeps_padding hbounds (by linarith) (by linarith)
    exact (Segment.endsWithin_of_bounds_le hinside).translate hx hy

/-- **The diagram of an expression lies on its canvas**, with its padding to all sides, wherever it
is anchored. -/
theorem layout_liesOn (t : Term) (hs : s.IsAccepted) (hlabels : s.showLabels = false)
    (hdots : s.hideApplicationSymbols = true) (hoverhang : s.binderOverhang ≤ 1) :
    ∃ d, layout s.toLayoutSettings t.expand.resolve = .ok d ∧ d.LiesOn s := by
  obtain ⟨d, hd⟩ := exists_layout s.toLayoutSettings (Term.isValid_resolveIn [] t.expand)
  exact ⟨d, hd, liesOn_of_layout hs hlabels hdots hoverhang t.expand.freeAtZero_resolve hd⟩

end Layout

/-- A free variable below an abstraction, applied to a numeral, on the canvas of the settings that
are built from nothing. -/
theorem layout_liesOn_free :
    let t : Term := .app
      (.lam (some "x") none (.app (.var (some "x") none false) (.var (some "y") none false)))
      (.var (some "2") none false)
    parse "(λx.x y) 2" = .ok t ∧
      ∃ s : RenderSettings Rat, RenderSettings.build (fun _ => none) = .ok s ∧
        ∃ d, layout s.toLayoutSettings t.expand.resolve = .ok d ∧ d.LiesOn s := by
  intro t
  have hbuild : ∃ s : RenderSettings Rat, RenderSettings.build (fun _ => none) = .ok s ∧
      (s.showLabels, s.hideApplicationSymbols, s.binderOverhang) = (false, true, 1 / 2) :=
    Guard.exists_of_map_toOption (by decide +kernel)
  obtain ⟨s, hs, hfields⟩ := hbuild
  obtain ⟨hlabels, hrest⟩ := Prod.mk.inj hfields
  obtain ⟨hdots, hoverhang⟩ := Prod.mk.inj hrest
  have hone : s.binderOverhang ≤ 1 := by
    rw [hoverhang]
    norm_num
  exact ⟨by decide +kernel, s, hs, layout_liesOn t (.of_build hs) hlabels hdots hone⟩

end Tromp
