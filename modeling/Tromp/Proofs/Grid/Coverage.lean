import Mathlib.Tactic.Positivity
import Tromp.Grid.Raster
import Tromp.Proofs.Arithmetic.Exact
import Tromp.Proofs.Grid.Bridges
import Tromp.Proofs.Grid.Rearrangement
import Tromp.Proofs.Grid.Slant

/-!
# No line is lost

A finished raster tells of every cell which lines pass through it.  Before the repairs a cell shows
what the characters drawn over it leave, in the order of the lines (`Grid.get?_foldl_drawEnds`):
nothing, the one character that was drawn, or a marker where two were.  The repairs keep all this
apart: the first changes markers only, the second empty cells only.

Whether a cell is on the grid at all is a question about its line, which stays in the rectangle
between its ends (`Grid.bounds_of_mem_lineCells`).
-/

namespace Tromp

namespace Ends

/-- The cells on the way of a line. -/
def cells (l : Ends Int) : List (Int × Int) := Grid.lineCells l.x1 l.y1 l.x2 l.y2

/-- The character that a line is drawn with. -/
def glyph (l : Ends Int) : Char := Grid.lineGlyph l.x1 l.y1 l.x2 l.y2

/-- Whether both ends of a line are cells of a grid. -/
structure OnGrid (rows cols : Int) (l : Ends Int) : Prop where
  row1 : 0 ≤ l.y1 ∧ l.y1 < rows
  col1 : 0 ≤ l.x1 ∧ l.x1 < cols
  row2 : 0 ≤ l.y2 ∧ l.y2 < rows
  col2 : 0 ≤ l.x2 ∧ l.x2 < cols

/-- A line between two cells of a grid does not leave the grid. -/
theorem OnGrid.inside {l : Ends Int} {g : Grid} {p : Int × Int} (h : l.OnGrid g.rows g.cols)
    (hp : p ∈ l.cells) : g.Inside p.1 p.2 := by
  obtain ⟨hrow1, hcol1, hrow2, hcol2⟩ := h
  obtain ⟨hrow, hcol⟩ := Grid.bounds_of_mem_lineCells hp
  unfold Grid.Inside
  omega

end Ends

namespace Glyph

/-- What a cell shows after some characters were drawn over it. -/
def overlay (x : Char) (glyphs : List Char) : Char := glyphs.foldl (fun x a => drawnOver a x) x

variable {x a b : Char} {glyphs : List Char}

theorem overlay_same (h : ∀ a ∈ glyphs, a = x) : overlay x glyphs = x := by
  induction glyphs with
  | nil => rfl
  | cons a glyphs ih =>
      obtain rfl := h a List.mem_cons_self
      have hstep : drawnOver a a = a := by simp [drawnOver]
      rw [overlay, List.foldl_cons, hstep]
      exact ih fun b hb => h b (List.mem_cons_of_mem _ hb)

/-- A marker stays a marker, whatever is drawn over it. -/
theorem overlay_marker : overlay marker glyphs = marker := by
  induction glyphs with
  | nil => rfl
  | cons a glyphs ih =>
      have hstep : drawnOver a marker = marker := by
        unfold drawnOver
        split
        next h => exact (h.resolve_left (by decide)).symm
        next => rfl
      rw [overlay, List.foldl_cons, hstep]
      exact ih

/-- Where a cell shows one character and another is drawn, a marker is left. -/
theorem overlay_of_ne (hx : x ≠ blank) (ha : a ∈ glyphs) (hne : a ≠ x) :
    overlay x glyphs = marker := by
  induction glyphs with
  | nil => cases ha
  | cons b glyphs ih =>
      rw [overlay, List.foldl_cons]
      by_cases hb : b = x
      · have hstep : drawnOver b x = x := by simp [drawnOver, hb]
        rw [hstep]
        refine ih ((List.mem_cons.mp ha).resolve_left ?_)
        rintro rfl
        exact hne hb
      · have hstep : drawnOver b x = marker := by simp [drawnOver, hx, Ne.symm hb]
        rw [hstep]
        exact overlay_marker

/-- One character drawn over an empty cell, once or more often. -/
theorem overlay_blank_of_forall (hglyphs : glyphs ≠ []) (h : ∀ b ∈ glyphs, b = a) :
    overlay blank glyphs = a := by
  cases glyphs with
  | nil => exact absurd rfl hglyphs
  | cons b glyphs =>
      obtain rfl := h b List.mem_cons_self
      have hstep : drawnOver b blank = b := by simp [drawnOver]
      rw [overlay, List.foldl_cons, hstep]
      exact overlay_same fun c hc => h c (List.mem_cons_of_mem _ hc)

/-- Two characters drawn over an empty cell leave a marker. -/
theorem overlay_blank_of_ne (hglyphs : ∀ c ∈ glyphs, c ≠ blank) (ha : a ∈ glyphs)
    (hb : b ∈ glyphs) (hne : a ≠ b) : overlay blank glyphs = marker := by
  cases glyphs with
  | nil => cases ha
  | cons c glyphs =>
      have hstep : drawnOver c blank = c := by simp [drawnOver]
      rw [overlay, List.foldl_cons, hstep]
      have hc : c ≠ blank := hglyphs c List.mem_cons_self
      by_cases hac : a = c
      · have hbc : b ≠ c := fun hbc => hne (hac.trans hbc.symm)
        exact overlay_of_ne hc ((List.mem_cons.mp hb).resolve_left hbc) hbc
      · exact overlay_of_ne hc ((List.mem_cons.mp ha).resolve_left hac) hac

end Glyph

/-- Every line is drawn with a character that draws lines. -/
theorem Ends.exists_direction?_glyph (l : Ends Int) : ∃ d, Glyph.direction? l.glyph = some d := by
  simp only [glyph, Grid.lineGlyph]
  repeat' split
  all_goals exact ⟨_, rfl⟩

theorem Ends.glyph_ne (l : Ends Int) : l.glyph ≠ Glyph.blank ∧ l.glyph ≠ Glyph.marker := by
  obtain ⟨d, hd⟩ := l.exists_direction?_glyph
  exact Glyph.ne_of_direction? hd

namespace Raster

section Cells

variable {rows cols : Nat} {lines : List (Ends Int)} {l m : Ends Int} {i j : Int} {p : Int × Int}

/-- The characters that lines draw over a cell, in the order of the lines. -/
def glyphsAt (lines : List (Ends Int)) (p : Int × Int) : List Char :=
  (lines.filter fun l => p ∈ l.cells).map Ends.glyph

/-- Whether a line passes through a cell. -/
def Visited (lines : List (Ends Int)) (p : Int × Int) : Prop := ∃ l ∈ lines, p ∈ l.cells

theorem mem_glyphsAt {a : Char} :
    a ∈ glyphsAt lines p ↔ ∃ l ∈ lines, p ∈ l.cells ∧ l.glyph = a := by
  simp [glyphsAt, and_assoc]

theorem ne_blank_of_mem_glyphsAt {a : Char} (h : a ∈ glyphsAt lines p) : a ≠ Glyph.blank := by
  obtain ⟨l, -, -, rfl⟩ := mem_glyphsAt.mp h
  exact l.glyph_ne.1

theorem glyphsAt_eq_nil_iff : glyphsAt lines p = [] ↔ ¬ Visited lines p := by
  simp [glyphsAt, Visited]

/-- **What is drawn at a cell** is decided by the characters of the lines through it alone. -/
theorem get?_foldl_drawEnds (lines : List (Ends Int)) (g : Grid) :
    (lines.foldl Grid.drawEnds g).get? i j =
      (g.get? i j).map fun x => Glyph.overlay x (glyphsAt lines (i, j)) := by
  induction lines generalizing g with
  | nil => simp [glyphsAt, Glyph.overlay]
  | cons l lines ih =>
      rw [List.foldl_cons, ih]
      have hline : (g.drawEnds l).get? i j =
          if (i, j) ∈ l.cells then (g.get? i j).map (Glyph.drawnOver l.glyph) else g.get? i j :=
        Grid.get?_putAll _
      by_cases hl : (i, j) ∈ l.cells
      · have hglyphs : glyphsAt (l :: lines) (i, j) = l.glyph :: glyphsAt lines (i, j) := by
          simp [glyphsAt, hl]
        rw [hline, if_pos hl, hglyphs, Option.map_map]
        rfl
      · have hglyphs : glyphsAt (l :: lines) (i, j) = glyphsAt lines (i, j) := by
          simp [glyphsAt, hl]
        rw [hline, if_neg hl, hglyphs]

theorem rows_foldl_drawEnds (lines : List (Ends Int)) (g : Grid) :
    (lines.foldl Grid.drawEnds g).rows = g.rows := by
  induction lines generalizing g with
  | nil => rfl
  | cons l lines ih => exact (ih _).trans (Grid.rows_putAll _)

theorem cols_foldl_drawEnds (lines : List (Ends Int)) (g : Grid) :
    (lines.foldl Grid.drawEnds g).cols = g.cols := by
  induction lines generalizing g with
  | nil => rfl
  | cons l lines ih => exact (ih _).trans (Grid.cols_putAll _)

/-- The grid on which lines were drawn, before the repairs. -/
def drawn (rows cols : Nat) (lines : List (Ends Int)) : Grid :=
  lines.foldl Grid.drawEnds (Grid.blank rows cols)

/-- The longest gap that is bridged in a drawing of some lines. -/
def maxGap (lines : List (Ends Int)) : Nat := if complexity < lines.length then 2 else 1

theorem rows_drawn : (drawn rows cols lines).rows = rows := rows_foldl_drawEnds lines _

theorem cols_drawn : (drawn rows cols lines).cols = cols := cols_foldl_drawEnds lines _

theorem get?_drawn (hi : (drawn rows cols lines).Inside i j) :
    (drawn rows cols lines).get? i j = some (Glyph.overlay Glyph.blank (glyphsAt lines (i, j))) := by
  have hblank : (Grid.blank rows cols).Inside i j :=
    (Grid.inside_congr rows_drawn cols_drawn).mp hi
  rw [drawn, get?_foldl_drawEnds, Grid.get?_blank hblank]
  rfl

/-- The drawn grid with its crossings resolved. -/
def resolved (rows cols : Nat) (lines : List (Ends Int)) : Grid :=
  (drawn rows cols lines).resolveCrossings

theorem ofCells_eq (rows cols : Nat) (lines : List (Ends Int)) :
    ofCells rows cols lines = (resolved rows cols lines).fillGaps (maxGap lines) :=
  rfl

/-- The drawn grid with and without crossings has the same positions. -/
theorem get?_resolved (hi : (resolved rows cols lines).Inside i j) :
    (resolved rows cols lines).get? i j =
      some (if Glyph.overlay Glyph.blank (glyphsAt lines (i, j)) = Glyph.marker then
        (drawn rows cols lines).junctionAt i j
      else Glyph.overlay Glyph.blank (glyphsAt lines (i, j))) := by
  have hdrawn : (drawn rows cols lines).Inside i j := (Grid.inside_congr rfl rfl).mp hi
  rw [resolved, Grid.get?_resolveCrossings, get?_drawn hdrawn]
  rfl

/-- Where only one character was drawn it is shown. -/
theorem get?_resolved_of_single (hi : (resolved rows cols lines).Inside p.1 p.2) (hl : l ∈ lines)
    (hp : p ∈ l.cells) (hall : ∀ m ∈ lines, p ∈ m.cells → m.glyph = l.glyph) :
    (resolved rows cols lines).get? p.1 p.2 = some l.glyph := by
  have hoverlay : Glyph.overlay Glyph.blank (glyphsAt lines p) = l.glyph := by
    apply Glyph.overlay_blank_of_forall
    · exact List.ne_nil_of_mem (mem_glyphsAt.mpr ⟨l, hl, hp, rfl⟩)
    · intro a ha
      obtain ⟨m, hm, hpm, rfl⟩ := mem_glyphsAt.mp ha
      exact hall m hm hpm
  rw [get?_resolved hi, hoverlay, if_neg l.glyph_ne.2]

/-- Where two characters were drawn the junction is shown. -/
theorem get?_resolved_of_crossing (hi : (resolved rows cols lines).Inside p.1 p.2) (hl : l ∈ lines)
    (hm : m ∈ lines) (hpl : p ∈ l.cells) (hpm : p ∈ m.cells) (hne : l.glyph ≠ m.glyph) :
    (resolved rows cols lines).get? p.1 p.2 =
      some ((drawn rows cols lines).junctionAt p.1 p.2) := by
  have hoverlay : Glyph.overlay Glyph.blank (glyphsAt lines p) = Glyph.marker :=
    Glyph.overlay_blank_of_ne (fun _ => ne_blank_of_mem_glyphsAt)
      (mem_glyphsAt.mpr ⟨l, hl, hpl, rfl⟩) (mem_glyphsAt.mpr ⟨m, hm, hpm, rfl⟩) hne
  rw [get?_resolved hi, if_pos hoverlay]

/-- Where nothing was drawn nothing is shown. -/
theorem get?_resolved_of_not_visited (hi : (resolved rows cols lines).Inside i j)
    (hv : ¬ Visited lines (i, j)) : (resolved rows cols lines).get? i j = some Glyph.blank := by
  rw [get?_resolved hi, glyphsAt_eq_nil_iff.mpr hv]
  rfl

/-- Where a line passes through, something other than a marker is shown. -/
theorem get?_resolved_of_visited (hi : (resolved rows cols lines).Inside p.1 p.2)
    (hv : Visited lines p) : ∃ x, (resolved rows cols lines).get? p.1 p.2 = some x ∧
      x ≠ Glyph.blank ∧ x ≠ Glyph.marker := by
  obtain ⟨l, hl, hp⟩ := hv
  by_cases hall : ∀ m ∈ lines, p ∈ m.cells → m.glyph = l.glyph
  · exact ⟨l.glyph, get?_resolved_of_single hi hl hp hall, l.glyph_ne⟩
  · push Not at hall
    obtain ⟨m, hm, hpm, hne⟩ := hall
    exact ⟨_, get?_resolved_of_crossing hi hl hm hp hpm (Ne.symm hne), Glyph.junction_ne _ _ _ _⟩

/-- What is shown after the crossings were resolved tells whether a line passes through. -/
theorem visited_iff_of_get?_resolved {x : Char}
    (h : (resolved rows cols lines).get? i j = some x) :
    Visited lines (i, j) ↔ x ≠ Glyph.blank := by
  have hi := Grid.inside_of_get? h
  constructor
  · intro hv
    obtain ⟨y, hy, hne, -⟩ := get?_resolved_of_visited hi hv
    rw [h] at hy
    exact Option.some.inj hy ▸ hne
  · intro hx
    by_contra hv
    have hblank := get?_resolved_of_not_visited hi hv
    rw [h] at hblank
    exact hx (Option.some.inj hblank)

theorem ne_marker_of_get?_resolved {x : Char}
    (h : (resolved rows cols lines).get? i j = some x) : x ≠ Glyph.marker := by
  have hi := Grid.inside_of_get? h
  by_cases hv : Visited lines (i, j)
  · obtain ⟨y, hy, -, hne⟩ := get?_resolved_of_visited hi hv
    rw [h] at hy
    exact Option.some.inj hy ▸ hne
  · have hblank := get?_resolved_of_not_visited hi hv
    rw [h] at hblank
    rw [Option.some.inj hblank]
    decide

/-- What a finished grid tells of the lines that were drawn. -/
structure IsFaithful (rows cols : Nat) (lines : List (Ends Int)) (g : Grid) : Prop where
  rows_eq : g.rows = rows
  cols_eq : g.cols = cols
  /-- Every line passes through the cells of both its ends. -/
  ends : ∀ l ∈ lines, (l.y1, l.x1) ∈ l.cells ∧ (l.y2, l.x2) ∈ l.cells
  /-- Nothing was drawn off the grid. -/
  inside : ∀ p, Visited lines p → g.Inside p.1 p.2
  /-- No cell of a line is empty. -/
  visible : ∀ p, Visited lines p → ∃ x, g.get? p.1 p.2 = some x ∧ x ≠ Glyph.blank
  /-- Where all lines through a cell are drawn with one character, the cell shows it. -/
  single : ∀ l ∈ lines, ∀ p ∈ l.cells,
    (∀ m ∈ lines, p ∈ m.cells → m.glyph = l.glyph) → g.get? p.1 p.2 = some l.glyph
  /-- Where lines of two characters cross, the junction of the neighbours is shown. -/
  crossing : ∀ l ∈ lines, ∀ m ∈ lines, ∀ p ∈ l.cells, p ∈ m.cells → l.glyph ≠ m.glyph →
    g.get? p.1 p.2 = some ((drawn rows cols lines).junctionAt p.1 p.2)
  no_marker : ∀ i j, g.get? i j ≠ some Glyph.marker
  /-- A cell that no line passes through is empty, or it was filled between two cells of lines that
  show the character it shows. -/
  otherwise : ∀ i j, g.Inside i j → ¬ Visited lines (i, j) → g.get? i j = some Glyph.blank ∨
    ∃ glyph dr dc, ∃ back ahead : Nat, Glyph.direction? glyph = some (dr, dc) ∧
      1 ≤ back ∧ 1 ≤ ahead ∧ back + ahead ≤ maxGap lines + 1 ∧
      g.get? i j = some glyph ∧
      g.get? (i - dr * back) (j - dc * back) = some glyph ∧
      g.get? (i + dr * ahead) (j + dc * ahead) = some glyph ∧
      Visited lines (i - dr * back, j - dc * back) ∧
      Visited lines (i + dr * ahead, j + dc * ahead) ∧
      ∀ n : Int, -(back : Int) < n → n < ahead → ¬ Visited lines (i + dr * n, j + dc * n)

/-- **No line is lost and no marker is left**, whatever cells of the grid the lines are drawn
between. -/
theorem isFaithful_ofCells (h : ∀ l ∈ lines, l.OnGrid rows cols) :
    IsFaithful rows cols lines (ofCells rows cols lines) := by
  have hrows : (resolved rows cols lines).rows = rows := rows_drawn
  have hcols : (resolved rows cols lines).cols = cols := cols_drawn
  have hinside : ∀ p, Visited lines p → (resolved rows cols lines).Inside p.1 p.2 := by
    intro p hv
    obtain ⟨l, hl, hp⟩ := hv
    refine Ends.OnGrid.inside ?_ hp
    rw [hrows, hcols]
    exact h l hl
  have hkept : ∀ p, Visited lines p → (ofCells rows cols lines).get? p.1 p.2 =
      (resolved rows cols lines).get? p.1 p.2 := by
    intro p hv
    obtain ⟨x, hx, hne, -⟩ := get?_resolved_of_visited (hinside p hv) hv
    rw [ofCells_eq, hx]
    exact Grid.get?_fillGaps_of_ne_blank hx hne
  constructor
  case rows_eq => exact hrows
  case cols_eq => exact hcols
  case ends =>
      intro l _
      exact Grid.ends_mem_lineCells _ _ _ _
  case inside =>
      intro p hv
      exact (Grid.inside_congr rfl rfl).mp (hinside p hv)
  case visible =>
      intro p hv
      obtain ⟨x, hx, hne, -⟩ := get?_resolved_of_visited (hinside p hv) hv
      exact ⟨x, (hkept p hv).trans hx, hne⟩
  case single =>
      intro l hl p hp hall
      have hv : Visited lines p := ⟨l, hl, hp⟩
      rw [hkept p hv]
      exact get?_resolved_of_single (hinside p hv) hl hp hall
  case crossing =>
      intro l hl m hm p hpl hpm hne
      have hv : Visited lines p := ⟨l, hl, hpl⟩
      rw [hkept p hv]
      exact get?_resolved_of_crossing (hinside p hv) hl hm hpl hpm hne
  case no_marker =>
      intro i j hmarker
      rw [ofCells_eq, Grid.get?_fillGaps] at hmarker
      obtain ⟨x, hx, hfilled⟩ := Option.map_eq_some_iff.mp hmarker
      by_cases hblank : x = Glyph.blank
      · rw [if_pos hblank, hblank] at hfilled
        cases hbridge : (resolved rows cols lines).bridge? (maxGap lines) i j with
        | none => simp [hbridge, Glyph.blank, Glyph.marker] at hfilled
        | some glyph =>
            obtain ⟨dr, dc, back, ahead, hb⟩ := Grid.bridged_of_bridge? hbridge
            rw [hbridge] at hfilled
            exact (Glyph.ne_of_direction? hb.direction).2 hfilled
      · rw [if_neg hblank] at hfilled
        exact ne_marker_of_get?_resolved hx hfilled
  case otherwise =>
      intro i j hi hv
      have hblank := get?_resolved_of_not_visited ((Grid.inside_congr rfl rfl).mp hi) hv
      have hfilled : (ofCells rows cols lines).get? i j =
          some (((resolved rows cols lines).bridge? (maxGap lines) i j).getD Glyph.blank) := by
        rw [ofCells_eq, Grid.get?_fillGaps, hblank]
        rfl
      cases hbridge : (resolved rows cols lines).bridge? (maxGap lines) i j with
      | none =>
          rw [hbridge] at hfilled
          exact Or.inl hfilled
      | some glyph =>
          rw [hbridge] at hfilled
          obtain ⟨dr, dc, back, ahead, hb⟩ := Grid.bridged_of_bridge? hbridge
          have hglyph := (Glyph.ne_of_direction? hb.direction).1
          have hstart := (visited_iff_of_get?_resolved hb.start).mpr hglyph
          have hfinish := (visited_iff_of_get?_resolved hb.finish).mpr hglyph
          refine Or.inr ⟨glyph, dr, dc, back, ahead, hb.direction, hb.back_pos, hb.ahead_pos,
            hb.span_le, hfilled, (hkept _ hstart).trans hb.start, (hkept _ hfinish).trans hb.finish,
            hstart, hfinish, ?_⟩
          intro n hlow hhigh hvisited
          exact (visited_iff_of_get?_resolved (hb.between n hlow hhigh)).mp hvisited rfl

end Cells

section Canvas

variable {α : Type} [Scalar α]

/-- A grid always has columns. -/
theorem columns_pos (width height : α) (lines : Nat) (terminal : Option Int) :
    0 < columns width height lines terminal := by
  have hbase : 60 ≤ baseColumns lines := by
    unfold baseColumns
    split
    · exact le_rfl
    · split <;> decide
  cases terminal with
  | none =>
      simp only [columns]
      split
      · omega
      · split <;> omega
  | some n =>
      simp only [columns, terminalLimit]
      split
      · omega
      · split <;> omega

/-- A grid with rows and columns takes the ends of every line. -/
theorem onGrid_cellsOf (line : Ends α) (factors : α × α) {cols : Nat} {rows : Int}
    (hcols : 0 < cols) (hrows : 0 < rows) : (cellsOf line factors cols rows).OnGrid rows cols := by
  constructor <;> simp only [cellsOf, cell] <;> omega

/-- In exact arithmetic a canvas with positive sides has rows. -/
theorem rows_pos {width height : Rat} (hw : 0 < width) (hh : 0 < height) (cols : Nat) :
    0 < rows width height cols := by
  have hwanted : 0 ≤ requestedRows width height cols := by
    unfold requestedRows
    rw [Scalar.ofNat_rat]
    positivity
  have hceil : 0 ≤ Scalar.ceil (requestedRows width height cols) := by
    have hle : (0 : Rat) ≤ Scalar.ceil (requestedRows width height cols) :=
      hwanted.trans Rat.le_ceil
    exact_mod_cast hle
  simp only [rows]
  split <;> omega

/-- **No line is lost and no marker is left**, whatever cells of the grid the ends of the lines are
mapped to. -/
theorem ofLines_isFaithful (lines : List (Ends α)) (width height : α) (terminal : Option Int) :
    let cols := columns width height lines.length terminal
    let limit := rows width height cols
    let cells := lines.map fun l => cellsOf l (factors width height cols limit) cols limit
    (∀ l ∈ cells, l.OnGrid limit cols) →
      IsFaithful limit.toNat cols cells (ofLines lines width height terminal) := by
  intro cols limit cells h
  refine isFaithful_ofCells ?_
  intro l hl
  have hlimit : (limit.toNat : Int) = limit := by
    have hrow := (h l hl).row1
    omega
  rw [hlimit]
  exact h l hl

/-- Three lines through one cell, with three characters, on a narrow terminal. -/
theorem ofLines_isFaithful_crossing :
    let lines : List (Ends Rat) := [⟨0, 0, 100, 80⟩, ⟨0, 20, 100, 20⟩, ⟨25, 0, 25, 80⟩]
    let cols := columns (100 : Rat) 80 lines.length (some 30)
    let limit := rows (100 : Rat) 80 cols
    let cells := lines.map fun l => cellsOf l (factors 100 80 cols limit) cols limit
    (∀ l ∈ cells, l.OnGrid limit cols) ∧
      IsFaithful limit.toNat cols cells (ofLines lines 100 80 (some 30)) := by
  intro lines cols limit cells
  have h : ∀ l ∈ cells, l.OnGrid limit cols := by
    intro l hl
    obtain ⟨line, -, rfl⟩ := List.mem_map.mp hl
    exact onGrid_cellsOf line _ (columns_pos _ _ _ _) (rows_pos (by norm_num) (by norm_num) _)
  exact ⟨h, ofLines_isFaithful lines 100 80 (some 30) h⟩

end Canvas

end Raster

end Tromp
