import Tromp.Proofs.Drawing.Columns
import Tromp.Proofs.Drawing.Lines
import Tromp.Proofs.Drawing.Success

/-!
# Columns are tiled

Every column of a drawing is one line from top to bottom, put together from the line of a variable
and from fillers.  `Fragment.IsTiled` says so of all columns at once: upright lines stand in the
middle of a column, each column has the line of one variable, and its fillers lead down from there
without gap or overlap.  The first column ends at the stem of the drawing, and any other one at the
right end of the bar of the application whose argument begins in it.
-/

namespace Tromp

/-- The heights where a line begins and ends. -/
def Segment.heights (s : Segment Rat) : Rat × Rat := (s.y1, s.y2)

namespace Fragment

/-- The lines of a drawing with their nodes and roles there, in the order of drawing. -/
def nodeLines (d : Fragment Rat) (t : Term) : List ((Address × StrokeRole) × Segment Rat) :=
  (t.strokes.map Stroke.key).zip d.segments

/-- The middle of a column. -/
def columnX (d : Fragment Rat) (column : Nat) : Rat := d.unitSize + 2 * column * d.unitSize

/-- The lines of some roles that begin in a column, the last one drawn first. -/
def linesIn (d : Fragment Rat) (t : Term) (roles : StrokeRole → Bool) (column : Nat) :
    List ((Address × StrokeRole) × Segment Rat) :=
  ((d.nodeLines t).filter fun line =>
    roles line.1.2 && decide (line.2.x1 = d.columnX column)).reverse

/-- The fillers of a column lead down from one height to another. -/
def ColumnDescends (d : Fragment Rat) (t : Term) (column : Nat) (top bottom : Rat) : Prop :=
  Descends top ((d.linesIn t StrokeRole.isFiller column).map fun line => line.2.heights) bottom

/-- A column with one variable, from whose line fillers lead down to the stem or to the bar of the
one application whose argument begins there. -/
structure IsColumn (d : Fragment Rat) (t : Term) (column : Nat) (π : Address)
    (line : Segment Rat) : Prop where
  occurs : t.occurrences[column]? = some π
  variable_line : d.linesIn t (fun role => role = .variable) column = [((π, .variable), line)]
  isUpright : line.IsUpright
  baseline : line.y1 = π.depth * d.unitSize
  descends_first : column = 0 → d.ColumnDescends t column line.y1 (d.stem * d.unitSize)
  descends_later : column ≠ 0 → ∃ ρ f a bar, t.at? ρ = some (.app f a) ∧
    t.column (ρ ++ [.arg]) = column ∧
    (∀ ρ' f' a', t.at? ρ' = some (.app f' a') → t.column (ρ' ++ [.arg]) = column → ρ' = ρ) ∧
    d.lineOf? t ρ .application = some bar ∧ bar.x2 = d.columnX column ∧
    d.ColumnDescends t column line.y1 bar.y2

/-- The columns of a drawing are tiled. -/
structure IsTiled (d : Fragment Rat) (t : Term) : Prop where
  /-- Every line belongs to a node. -/
  segments : (d.nodeLines t).map Prod.snd = d.segments
  /-- All but the bars stand in a column. -/
  upright : ∀ line ∈ d.nodeLines t, line.1.2.isBar = false →
    ∃ column < d.width, line.2.x1 = d.columnX column ∧ line.2.x2 = d.columnX column
  /-- A filler ends on the bar of its application, that of the function at the left end and that of
  the argument at the right end. -/
  fillers : ∀ ρ role filler, ((ρ, role), filler) ∈ d.nodeLines t → role.isFiller →
    ∃ f a bar, t.at? ρ = some (.app f a) ∧ d.lineOf? t ρ .application = some bar ∧
      bar.y1 = bar.y2 ∧ filler.y2 = bar.y2 ∧ (role = .functionFiller → filler.x2 = bar.x1) ∧
      (role = .argumentFiller → filler.x2 = bar.x2)
  columns : ∀ column < d.width, ∃ π line, d.IsColumn t column π line

end Fragment

namespace Painter

variable {p : Painter Rat} {t : Term} {d : Fragment Rat} {colors : Address → String}

/-- The lines of a drawing with their nodes, when the drawing is that of some strokes. -/
theorem nodeLines_eq (h : d.segments = t.strokes.map fun k => p.segment (colors k.node) k) :
    d.nodeLines t = t.strokes.map fun k => (k.key, p.segment (colors k.node) k) := by
  rw [Fragment.nodeLines, h, List.zip_map']

theorem columnX_eq (hunit : d.unitSize = p.unit) (column : Nat) :
    d.columnX column = (2 * column + 1) * p.unit := by
  rw [Fragment.columnX, hunit, p.unit_add_columns]

/-- The upright lines of a column are those of its strokes. -/
theorem linesIn_eq (hunit : d.unitSize = p.unit) (hpos : 0 < p.unit)
    (h : d.segments = t.strokes.map fun k => p.segment (colors k.node) k)
    {roles : StrokeRole → Bool} (hroles : ∀ role, roles role = true → role.isBar = false)
    (column : Nat) :
    d.linesIn t roles column =
      (t.strokesIn roles column).map fun k => (k.key, p.segment (colors k.node) k) := by
  have hsame : ∀ k ∈ t.strokes,
      (roles k.role && decide ((p.segment (colors k.node) k).x1 = d.columnX column)) =
        (roles k.role && decide (k.column1 = column)) := by
    intro k hk
    cases hrole : roles k.role with
    | false => rfl
    | true =>
        have hupright := (Term.fits_of_mem_strokes hk).column2_eq (hroles _ hrole)
        obtain ⟨hx1, -⟩ := p.segment_x_of_not_isBar (hroles _ hrole) hupright (colors k.node)
        simp only [Bool.true_and, hx1, columnX_eq hunit, column_inj hpos]
  rw [Fragment.linesIn, nodeLines_eq h, List.filter_map, Term.strokesIn, List.map_reverse]
  exact congrArg (fun l => (l.map fun k => (k.key, p.segment (colors k.node) k)).reverse)
    (List.filter_congr hsame)

/-- The fillers of a column of the drawing lead down as those of the term do. -/
theorem columnDescends (hunit : d.unitSize = p.unit) (hpos : 0 < p.unit)
    (h : d.segments = t.strokes.map fun k => p.segment (colors k.node) k) {π : Address}
    {name : Option String} {index : Option Nat} {free : Bool}
    (hπ : t.at? π = some (.var name index free)) :
    d.ColumnDescends t (t.column π) (π.depth * p.unit) (t.foot (t.column π) * p.unit) := by
  have hrows := (Term.descends_of_at? hπ).map (g := fun row : Int => (row : Rat) * p.unit)
    fun a b hab => mul_lt_mul_of_pos_right (Int.cast_lt.mpr hab) hpos
  rw [Fragment.ColumnDescends, linesIn_eq hunit hpos h fun role => StrokeRole.isBar_eq_false]
  simpa [Function.comp_def, Stroke.rows, Segment.heights, segment] using hrows

/-- The column of a variable, where its line and the fillers below it stand. -/
theorem Shows.isColumn {binders : List String} (h : p.Shows t binders d)
    (hunit : d.unitSize = p.unit) (hpos : 0 < p.unit) {π : Address} {name : Option String}
    {index : Option Nat} {free : Bool} (hπ : t.at? π = some (.var name index free)) :
    ∃ line, d.IsColumn t (t.column π) π line := by
  obtain ⟨colors, hsegments, hline⟩ := h.lines
  obtain ⟨_, hcolors, -⟩ := h.segments_eq
  obtain ⟨i, rfl, -, -⟩ := hcolors π name index free hπ
  have hdescends := columnDescends hunit hpos hsegments hπ
  have hbaseline : (p.segment (colors π) ((Stroke.ofVariable i).under π (t.column π) π.depth)).y1 =
      π.depth * p.unit := by
    simp [segment, Stroke.under, Stroke.ofVariable]
  refine ⟨p.segment (colors π) ((Stroke.ofVariable i).under π (t.column π) π.depth), ?_⟩
  constructor
  case occurs =>
    exact Term.occurrences_getElem?_eq_some_iff.mpr
      ⟨Term.mem_occurrences_iff.mpr ⟨name, some i, free, hπ⟩, rfl⟩
  case variable_line =>
    have hroles : ∀ role : StrokeRole, decide (role = .variable) = true → role.isBar = false := by
      intro role hrole
      rw [of_decide_eq_true hrole]
      rfl
    rw [linesIn_eq hunit hpos hsegments hroles, Term.variablesIn_column hπ]
    simp [Stroke.key, Stroke.under, Stroke.ofVariable]
  case isUpright => exact segment_ofVariable_isUpright hpos ..
  case baseline => rw [hbaseline, hunit]
  case descends_first =>
    intro hzero
    rw [hbaseline, h.stem_eq, hunit, ← t.foot_zero, ← hzero]
    exact hdescends
  case descends_later =>
    intro hne
    have hlt : t.column π < t.width := Term.column_add_width_le hπ
    obtain ⟨ρ, f, a, happ, hcolumn, hunique⟩ :=
      Term.existsUnique_application (Nat.pos_of_ne_zero hne) hlt
    obtain ⟨bar, hbar, hnode, hrole, hend, hfoot⟩ := Term.exists_bar_of_at? happ
    rw [hcolumn] at hend hfoot
    refine ⟨ρ, f, a, _, happ, hcolumn, hunique,
      (hline _ _ _).mpr ⟨bar, hbar, hnode, hrole, rfl⟩, ?_, ?_⟩
    · rw [columnX_eq hunit]
      simp [segment, hrole, overhang, hend]
    · have hy : (p.segment (colors ρ) bar).y2 = t.foot (t.column π) * p.unit := by
        simp [segment, hfoot]
      rw [hbaseline, hy]
      exact hdescends

/-- **Columns are tiled** in every drawing. -/
theorem Shows.isTiled {binders : List String} (h : p.Shows t binders d)
    (hunit : d.unitSize = p.unit) (hpos : 0 < p.unit) : d.IsTiled t := by
  obtain ⟨colors, hsegments, hline⟩ := h.lines
  have hnodeLines := nodeLines_eq hsegments
  constructor
  case segments =>
    rw [hnodeLines, hsegments, List.map_map]
    rfl
  case upright =>
    intro line hmem hrole
    rw [hnodeLines] at hmem
    obtain ⟨k, hk, rfl⟩ := List.mem_map.mp hmem
    have hfits := Term.fits_of_mem_strokes hk
    have hupright := hfits.column2_eq hrole
    refine ⟨k.column1, ?_, ?_⟩
    · rw [h.width_eq]
      exact hfits.column_le.trans_lt hfits.column_lt
    · rw [columnX_eq hunit]
      exact p.segment_x_of_not_isBar hrole hupright _
  case fillers =>
    intro ρ role filler hmem hrole
    rw [hnodeLines] at hmem
    obtain ⟨k, hk, heq⟩ := List.mem_map.mp hmem
    cases heq
    obtain ⟨f, a, happ, bar, hbar, hnode, hbarRole, hlevel, hrow, hfunc, harg⟩ :=
      Term.exists_bar_of_mem_strokes hk hrole
    refine ⟨f, a, _, happ, (hline _ _ _).mpr ⟨bar, hbar, hnode, hbarRole, rfl⟩, ?_, ?_, ?_, ?_⟩
    · exact congrArg (fun row : Int => (row : Rat) * p.unit) hlevel
    · exact congrArg (fun row : Int => (row : Rat) * p.unit) hrow
    · intro hrole'
      simp [segment, hrole', hbarRole, hfunc hrole', overhang]
    · intro hrole'
      simp [segment, hrole', hbarRole, harg hrole', overhang]
  case columns =>
    intro column hcolumn
    rw [h.width_eq, ← t.length_occurrences] at hcolumn
    obtain ⟨hmem, hplace⟩ := Term.occurrences_getElem?_eq_some_iff.mp
      (List.getElem?_eq_getElem hcolumn)
    obtain ⟨name, index, free, hπ⟩ := Term.mem_occurrences_iff.mp hmem
    obtain ⟨line, hcolumn⟩ := h.isColumn hunit hpos hπ
    rw [hplace] at hcolumn
    exact ⟨_, line, hcolumn⟩

end Painter

/-- **Columns are tiled.**  In the drawing of a term upright lines stand in the middle of a column,
and each column is the line of one variable, carried on by fillers without gap or overlap: the first
one down to the stem, and any other one to the right end of the bar of the application whose
argument begins there. -/
theorem layout_isTiled {s : LayoutSettings Rat} {t : Term} {d : Fragment Rat} (hs : s.IsAccepted)
    (hd : layout s t = .ok d) : d.IsTiled t := by
  obtain ⟨term, hunit, hshows⟩ := shows_of_layout hd
  have hpos : 0 < d.unitSize := hunit ▸ hs.bounds.unitSize_mul_scaleOf_pos term
  exact hshows.isTiled rfl hpos

/-- An argument of three abstractions beside a function of one, which is the only operand with a
filler. -/
theorem layout_isTiled_deep :
    let identity : Term := .lam (some "x") none (.var (some "x") (some 0) false)
    let deep : Term := .lam (some "x") none (.lam (some "y") none (.lam (some "z") none
      (.var (some "y") (some 1) false)))
    ∃ (s : LayoutSettings Rat) (d : Fragment Rat), s.IsAccepted ∧
      layout s (.app identity deep) = .ok d ∧ d.IsTiled (.app identity deep) := by
  intro identity deep
  obtain ⟨s, hbuild, -⟩ := LayoutSettings.exists_build
  obtain ⟨d, hd⟩ := exists_layout s (t := .app identity deep) (by decide)
  have hs := LayoutSettings.IsAccepted.of_build hbuild
  exact ⟨s, d, hs, hd, layout_isTiled hs hd⟩

end Tromp
