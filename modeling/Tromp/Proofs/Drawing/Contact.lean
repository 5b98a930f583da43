import Mathlib.Tactic.Linarith
import Tromp.Proofs.Drawing.Clearance
import Tromp.Proofs.Drawing.Lines
import Tromp.Proofs.Drawing.Success

/-!
# No stray contact between lines

Two lines of a diagram that touch are read as joined, so lines may touch only where they are meant
to.  `Fragment.IsClear` says where that is: bars never touch each other, a filler touches bars only
at its two ends, and the line of a variable touches the bars of applications only at its lower end
and the bars of abstractions only up to that of its own.

Bars of abstractions hang over into the columns beside them.  As long as they hang over by less
than half a column, a shared point implies a shared column (`Painter.IsSpaced.abreast_of_covers`),
and what is known of the strokes on the grid carries over to the lines.
-/

namespace Tromp

/-- A point lies on a line. -/
def Segment.Covers (s : Segment Rat) (x y : Rat) : Prop :=
  ∃ c, 0 ≤ c ∧ c ≤ 1 ∧ x = s.x1 + c * (s.x2 - s.x1) ∧ y = s.y1 + c * (s.y2 - s.y1)

/-- Lines touch only where they are meant to. -/
structure Fragment.IsClear (d : Fragment Rat) (t : Term) : Prop where
  /-- Every line belongs to a node, and the level ones are the bars. -/
  line_of_node : ∀ line ∈ d.segments, ∃ π role, d.lineOf? t π role = some line ∧
    (line.y1 = line.y2 ↔ role.isBar)
  /-- Level lines have no point in common. -/
  bars : d.segments.Pairwise fun bar bar' => bar.y1 = bar.y2 → bar'.y1 = bar'.y2 →
    ∀ x y, ¬ (bar.Covers x y ∧ bar'.Covers x y)
  /-- A filler has at most its ends in common with level lines. -/
  fillers : ∀ π role filler, role.isFiller → d.lineOf? t π role = some filler →
    ∀ bar ∈ d.segments, bar.y1 = bar.y2 → ∀ x y, filler.Covers x y → bar.Covers x y →
      (x = filler.x1 ∧ y = filler.y1) ∨ (x = filler.x2 ∧ y = filler.y2)
  /-- A variable has an upright line, drawn upwards.  It has at most its lower end in common with
  the bar of an application, and a point in common with the bar of an abstraction only if that is
  one of those around the variable that its index counts. -/
  variable_lines : ∀ π name index free, t.at? π = some (.var name index free) →
    ∃ i line, index = some i ∧ d.lineOf? t π .variable = some line ∧ line.IsUpright ∧
      ∀ ρ role bar, d.lineOf? t ρ role = some bar → ∀ x y, line.Covers x y → bar.Covers x y →
        (role = .application → x = line.x1 ∧ y = line.y1) ∧
        (role = .abstraction → ∃ j ≤ i, π.enclosing[j]? = some ρ)

/-- What lies between two numbers. -/
theorem between_of_eq {a b c v : Rat} (h0 : 0 ≤ c) (h1 : c ≤ 1) (hv : v = a + c * (b - a)) :
    min a b ≤ v ∧ v ≤ max a b := by
  rcases le_total a b with hab | hab
  · rw [min_eq_left hab, max_eq_right hab]
    have hlow : 0 ≤ c * (b - a) := mul_nonneg h0 (sub_nonneg.mpr hab)
    have hhigh : c * (b - a) ≤ 1 * (b - a) := mul_le_mul_of_nonneg_right h1 (sub_nonneg.mpr hab)
    constructor <;> linarith
  · rw [min_eq_right hab, max_eq_left hab]
    have hlow : 0 ≤ c * (a - b) := mul_nonneg h0 (sub_nonneg.mpr hab)
    have hhigh : c * (a - b) ≤ 1 * (a - b) := mul_le_mul_of_nonneg_right h1 (sub_nonneg.mpr hab)
    constructor <;> linarith

/-- Level strokes are bars. -/
theorem Stroke.Fits.level_iff {k : Stroke} {t : Term} (h : k.Fits t) :
    k.row1 = k.row2 ↔ k.role.isBar := by
  cases hrole : k.role with
  | «variable» =>
      have hvariable := h.of_variable hrole
      simp only [StrokeRole.isBar, Bool.false_eq_true, iff_false]
      omega
  | abstraction | application =>
      have hbar := h.of_bar (by rw [hrole]; rfl)
      simp only [StrokeRole.isBar, iff_true]
      omega
  | functionFiller | argumentFiller =>
      have hfiller := h.of_filler (by rw [hrole]; rfl)
      simp only [StrokeRole.isBar, Bool.false_eq_true, iff_false]
      omega

/-- The columns of a drawing stand apart: they have a size, and bars hang over by less than half of
it. -/
structure Painter.IsSpaced (p : Painter Rat) : Prop where
  unit_pos : 0 < p.unit
  overhang_nonneg : 0 ≤ p.settings.binderOverhang
  overhang_lt : p.settings.binderOverhang < 1

namespace Painter

variable {p : Painter Rat} {t : Term} {k bar : Stroke} {color color' : String} {x y : Rat}

/-- A bar hangs over by less than half a column. -/
theorem IsSpaced.overhang_bounds (hp : p.IsSpaced) (role : StrokeRole) :
    0 ≤ p.overhang role ∧ p.overhang role < p.unit := by
  have hunit := hp.unit_pos
  cases role with
  | abstraction =>
      exact ⟨mul_nonneg hp.overhang_nonneg hunit.le, mul_lt_of_lt_one_left hunit hp.overhang_lt⟩
  | «variable» | application | functionFiller | argumentFiller => exact ⟨le_rfl, hunit⟩

/-- The columns of a point on a line. -/
theorem IsSpaced.columns_of_covers (hp : p.IsSpaced) (hcolumn : k.column1 ≤ k.column2)
    (h : (p.segment color k).Covers x y) :
    2 * k.column1 * p.unit < x ∧ x < (2 * k.column2 + 2) * p.unit := by
  obtain ⟨c, h0, h1, hx, -⟩ := h
  obtain ⟨hlow, hhigh⟩ := between_of_eq h0 h1 hx
  obtain ⟨hover, hover'⟩ := hp.overhang_bounds k.role
  have hle := column_mono hp.unit_pos.le hcolumn
  have hends : (p.segment color k).x1 ≤ (p.segment color k).x2 := by
    simp only [segment]
    linarith
  rw [min_eq_left hends] at hlow
  rw [max_eq_right hends] at hhigh
  simp only [segment] at hlow hhigh
  constructor <;> linarith

/-- **Contact needs a common column**, as long as bars hang over by less than half a column. -/
theorem IsSpaced.abreast_of_covers (hp : p.IsSpaced) (hk : k.column1 ≤ k.column2)
    (hbar : bar.column1 ≤ bar.column2) (h : (p.segment color k).Covers x y)
    (h' : (p.segment color' bar).Covers x y) : k.Abreast bar := by
  obtain ⟨hlow, hhigh⟩ := hp.columns_of_covers hk h
  obtain ⟨hlow', hhigh'⟩ := hp.columns_of_covers hbar h'
  have hunit := hp.unit_pos
  have hleft : 2 * (k.column1 : Rat) < 2 * bar.column2 + 2 :=
    lt_of_mul_lt_mul_right (hlow.trans hhigh') hunit.le
  have hright : 2 * (bar.column1 : Rat) < 2 * k.column2 + 2 :=
    lt_of_mul_lt_mul_right (hlow'.trans hhigh) hunit.le
  constructor
  · have hcast : (k.column1 : Rat) < (bar.column2 + 1 : Nat) := by
      push_cast
      linarith
    exact Nat.lt_succ_iff.mp (Nat.cast_lt.mp hcast)
  · have hcast : (bar.column1 : Rat) < (k.column2 + 1 : Nat) := by
      push_cast
      linarith
    exact Nat.lt_succ_iff.mp (Nat.cast_lt.mp hcast)

/-- Contact with a level line is in its row, which the other line has to reach. -/
theorem rows_of_covers (hunit : 0 < p.unit) (hlevel : bar.row2 = bar.row1)
    (h : (p.segment color k).Covers x y) (h' : (p.segment color' bar).Covers x y) :
    y = bar.row1 * p.unit ∧ min k.row1 k.row2 ≤ bar.row1 ∧ bar.row1 ≤ max k.row1 k.row2 := by
  obtain ⟨c, h0, h1, -, hy⟩ := h
  obtain ⟨c', -, -, -, hy'⟩ := h'
  have hrow : y = bar.row1 * p.unit := by
    rw [hy']
    simp [segment, hlevel]
  obtain ⟨hlow, hhigh⟩ := between_of_eq h0 h1 hy
  simp only [segment] at hlow hhigh
  rw [← min_mul_of_nonneg _ _ hunit.le, hrow, ← Int.cast_min] at hlow
  rw [← max_mul_of_nonneg _ _ hunit.le, hrow, ← Int.cast_max] at hhigh
  exact ⟨hrow, Int.cast_le.mp (le_of_mul_le_mul_right hlow hunit),
    Int.cast_le.mp (le_of_mul_le_mul_right hhigh hunit)⟩

/-- The level line of a stroke is that of a bar. -/
theorem level_segment_iff (hunit : 0 < p.unit) (hk : k.Fits t) :
    (p.segment color k).y1 = (p.segment color k).y2 ↔ k.role.isBar :=
  (row_inj hunit).trans hk.level_iff

/-- The points of an upright line are in the middle of its column. -/
theorem x_eq_of_covers (hrole : k.role.isBar = false) (hcolumn : k.column2 = k.column1)
    (h : (p.segment color k).Covers x y) :
    x = (p.segment color k).x1 ∧ x = (p.segment color k).x2 := by
  obtain ⟨c, -, -, hx, -⟩ := h
  obtain ⟨hx1, hx2⟩ := p.segment_x_of_not_isBar hrole hcolumn color
  rw [hx1, hx2] at hx ⊢
  rw [hx]
  simp

/-- Where a line and the line of a bar touch, their strokes have a column in common. -/
theorem IsSpaced.abreast_of_mem_strokes (hp : p.IsSpaced) (hk : k ∈ t.strokes)
    (hbar : bar ∈ t.strokes) (h : (p.segment color k).Covers x y)
    (h' : (p.segment color' bar).Covers x y) : k.Abreast bar :=
  hp.abreast_of_covers (Term.fits_of_mem_strokes hk).column_le
    (Term.fits_of_mem_strokes hbar).column_le h h'

/-- The lines of two bars do not touch. -/
theorem IsSpaced.not_covers_bar (hp : p.IsSpaced) (hk : k ∈ t.strokes) (hbar : bar ∈ t.strokes)
    (hne : k ≠ bar) (hrole : k.role.isBar) (hrole' : bar.role.isBar)
    (h : (p.segment color k).Covers x y) : ¬ (p.segment color' bar).Covers x y := by
  intro h'
  have hrows := (Term.spares_of_mem_strokes hk hbar hrole' hne).of_bar hrole
    (hp.abreast_of_mem_strokes hk hbar h h')
  obtain ⟨hlevel, -, -⟩ := (Term.fits_of_mem_strokes hk).of_bar hrole
  obtain ⟨hlevel', -, -⟩ := (Term.fits_of_mem_strokes hbar).of_bar hrole'
  have hrow := (rows_of_covers hp.unit_pos hlevel h h).1
  have hrow' := (rows_of_covers hp.unit_pos hlevel' h h').1
  exact hrows ((row_inj hp.unit_pos).mp (hrow'.symm.trans hrow))

/-- The line of a filler touches that of a bar at an end. -/
theorem IsSpaced.end_of_filler_covers (hp : p.IsSpaced) (hk : k ∈ t.strokes)
    (hbar : bar ∈ t.strokes) (hrole : k.role.isFiller) (hrole' : bar.role.isBar)
    (h : (p.segment color k).Covers x y) (h' : (p.segment color' bar).Covers x y) :
    (x = (p.segment color k).x1 ∧ y = (p.segment color k).y1) ∨
      (x = (p.segment color k).x2 ∧ y = (p.segment color k).y2) := by
  have hplain : k.role.isBar = false := StrokeRole.isBar_eq_false hrole
  have hne : k ≠ bar := by
    rintro rfl
    rw [hrole'] at hplain
    cases hplain
  have hends := (Term.spares_of_mem_strokes hk hbar hrole' hne).of_filler hrole
    (hp.abreast_of_mem_strokes hk hbar h h')
  obtain ⟨hcolumn, hdown, -⟩ := (Term.fits_of_mem_strokes hk).of_filler hrole
  obtain ⟨hlevel, -, -⟩ := (Term.fits_of_mem_strokes hbar).of_bar hrole'
  obtain ⟨hy, hlow, hhigh⟩ := rows_of_covers hp.unit_pos hlevel h h'
  obtain ⟨hx1, hx2⟩ := x_eq_of_covers hplain hcolumn h
  rw [min_eq_left hdown.le] at hlow
  rw [max_eq_right hdown.le] at hhigh
  rcases hends with hrow | hrow
  · exact .inl ⟨hx1, by rw [hy, le_antisymm hrow hlow]; rfl⟩
  · exact .inr ⟨hx2, by rw [hy, le_antisymm hhigh hrow]; rfl⟩

/-- The line of a variable touches that of the bar of an application at its lower end. -/
theorem IsSpaced.end_of_variable_covers (hp : p.IsSpaced) (hk : k ∈ t.strokes)
    (hbar : bar ∈ t.strokes) (hrole : k.role = .variable) (hrole' : bar.role = .application)
    (h : (p.segment color k).Covers x y) (h' : (p.segment color' bar).Covers x y) :
    x = (p.segment color k).x1 ∧ y = (p.segment color k).y1 := by
  have hisBar : bar.role.isBar := by rw [hrole']; rfl
  have hne : k ≠ bar := by
    rintro rfl
    cases hrole.symm.trans hrole'
  have habove := (Term.spares_of_mem_strokes hk hbar hisBar hne).of_application hrole hrole'
    (hp.abreast_of_mem_strokes hk hbar h h')
  obtain ⟨hcolumn, hup, -⟩ := (Term.fits_of_mem_strokes hk).of_variable hrole
  obtain ⟨hlevel, -, -⟩ := (Term.fits_of_mem_strokes hbar).of_bar hisBar
  obtain ⟨hy, -, hhigh⟩ := rows_of_covers hp.unit_pos hlevel h h'
  obtain ⟨hx1, -⟩ := x_eq_of_covers (by rw [hrole]; rfl) hcolumn h
  rw [max_eq_left hup.le] at hhigh
  exact ⟨hx1, by rw [hy, le_antisymm hhigh habove]; rfl⟩

/-- The line of a variable touches those of the abstractions around it that its index counts, and
no other bars of abstractions. -/
theorem IsSpaced.enclosing_of_variable_covers (hp : p.IsSpaced) {π : Address} {columns i : Nat}
    (hk : (Stroke.ofVariable i).under π columns π.depth ∈ t.strokes) (hbar : bar ∈ t.strokes)
    (hrole : bar.role = .abstraction)
    (h : (p.segment color ((Stroke.ofVariable i).under π columns π.depth)).Covers x y)
    (h' : (p.segment color' bar).Covers x y) : ∃ j ≤ i, π.enclosing[j]? = some bar.node := by
  have hisBar : bar.role.isBar := by rw [hrole]; rfl
  have hne : (Stroke.ofVariable i).under π columns π.depth ≠ bar := by
    rintro rfl
    cases hrole
  have hmem := (Term.spares_of_mem_strokes hk hbar hisBar hne).of_abstraction rfl hrole
    (hp.abreast_of_mem_strokes hk hbar h h')
  rw [show ((Stroke.ofVariable i).under π columns π.depth).node = π from List.append_nil π] at hmem
  obtain ⟨j, hj⟩ := List.mem_iff_getElem?.mp hmem
  refine ⟨j, ?_, hj⟩
  -- The row of the bar says how many abstractions are between it and the variable.
  obtain ⟨σ, rfl, hσ⟩ := Address.enclosing_getElem? hj
  obtain ⟨name, numeral, body, -, heq⟩ := Term.exists_lam_of_mem_strokes hbar hrole
  have hrow : bar.row1 = bar.node.depth := (congrArg Stroke.row1 heq).symm.trans (Int.add_zero _)
  have hdepth : Address.depth (bar.node ++ .body :: σ) = bar.node.depth + j + 1 := by
    rw [Address.depth_append, Address.depth, hσ]
    omega
  obtain ⟨hlevel, -, -⟩ := (Term.fits_of_mem_strokes hbar).of_bar hisBar
  obtain ⟨-, hlow, -⟩ := rows_of_covers hp.unit_pos hlevel h h'
  simp only [Stroke.under, Stroke.ofVariable, hdepth] at hlow
  omega

/-- **No stray contact** between the lines of a drawing whose columns stand apart. -/
theorem Shows.isClear (hp : p.IsSpaced) {binders : List String} {d : Fragment Rat}
    (h : p.Shows t binders d) : d.IsClear t := by
  obtain ⟨colors, hsegments, hline⟩ := h.lines
  have hlevel : ∀ k ∈ t.strokes,
      (p.segment (colors k.node) k).y1 = (p.segment (colors k.node) k).y2 → k.role.isBar := fun k hk =>
    (level_segment_iff hp.unit_pos (Term.fits_of_mem_strokes hk)).mp
  constructor
  case line_of_node =>
    intro line hmem
    rw [hsegments] at hmem
    obtain ⟨k, hk, rfl⟩ := List.mem_map.mp hmem
    exact ⟨k.node, k.role, (hline _ _ _).mpr ⟨k, hk, rfl, rfl, rfl⟩,
      level_segment_iff hp.unit_pos (Term.fits_of_mem_strokes hk)⟩
  case bars =>
    have hnodup : t.strokes.Nodup := t.nodup_strokes.of_map
    rw [hsegments, List.pairwise_map]
    refine List.Nodup.pairwise_of_forall_ne hnodup fun k hk bar hbar hne hk' hbar' x y hcovers => ?_
    exact hp.not_covers_bar hk hbar hne (hlevel k hk hk') (hlevel bar hbar hbar') hcovers.1
      hcovers.2
  case fillers =>
    intro π role filler hrole hfiller line hmem hline' x y hx hx'
    obtain ⟨k, hk, rfl, rfl, rfl⟩ := (hline _ _ _).mp hfiller
    rw [hsegments] at hmem
    obtain ⟨bar, hbar, rfl⟩ := List.mem_map.mp hmem
    exact hp.end_of_filler_covers hk hbar hrole (hlevel bar hbar hline') hx hx'
  case variable_lines =>
    intro π name index free hπ
    obtain ⟨colors', hcolors, -⟩ := h.exists_colors
    obtain ⟨i, rfl, -, -⟩ := hcolors π name index free hπ
    have hk := Term.strokes_at? hπ (List.mem_singleton_self (Stroke.ofVariable i))
    have hnode : ((Stroke.ofVariable i).under π (t.column π) π.depth).node = π := List.append_nil π
    refine ⟨i, _, rfl, (hline _ _ _).mpr ⟨_, hk, hnode, rfl, rfl⟩,
      segment_ofVariable_isUpright hp.unit_pos .., ?_⟩
    intro ρ role line hfound x y hx hx'
    obtain ⟨bar, hbar, rfl, rfl, rfl⟩ := (hline _ _ _).mp hfound
    exact ⟨fun hrole => hp.end_of_variable_covers hk hbar rfl hrole hx hx',
      fun hrole => hp.enclosing_of_variable_covers hk hbar hrole hx hx'⟩

end Painter

/-- **No stray contact.**  In the drawing of a term whose bars hang over by less than half a column,
lines touch only where they are meant to. -/
theorem layout_isClear {s : LayoutSettings Rat} {t : Term} {d : Fragment Rat} (hs : s.IsAccepted)
    (hover : s.binderOverhang < 1) (hd : layout s t = .ok d) : d.IsClear t := by
  obtain ⟨term, hunit, hshows⟩ := shows_of_layout hd
  have hpos : 0 < d.unitSize := hunit ▸ hs.bounds.unitSize_mul_scaleOf_pos term
  exact hshows.isClear ⟨hpos, hs.bounds.binderOverhang_nonneg, hover⟩

/-- Two free variables, one of them under an abstraction that does not bind it. -/
theorem layout_isClear_free :
    let t : Term := .app (.lam (some "x") none (.app (.var (some "x") (some 0) false)
      (.var (some "y") (some 0) true))) (.var (some "z") (some 0) true)
    ∃ (s : LayoutSettings Rat) (d : Fragment Rat), s.IsAccepted ∧ s.binderOverhang < 1 ∧
      layout s t = .ok d ∧ d.IsClear t := by
  intro t
  obtain ⟨s, hbuild, hhalf⟩ := LayoutSettings.exists_build
  obtain ⟨d, hd⟩ := exists_layout s (t := t) (by decide)
  have hs := LayoutSettings.IsAccepted.of_build hbuild
  have hover : s.binderOverhang < 1 := by
    rw [hhalf]
    norm_num
  exact ⟨s, d, hs, hover, hd, layout_isClear hs hover hd⟩

end Tromp
