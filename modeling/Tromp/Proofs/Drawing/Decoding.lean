import Tromp.Proofs.Drawing.Lines
import Tromp.Proofs.Drawing.Success
import Tromp.Proofs.Term.Annotations

/-!
# A diagram determines its term

Nothing of a closed term is lost in its diagram but names and tags, even if the lines of the diagram
are given as a set, without their colours.  The term can be read off from the top:

* An abstraction has a bar in the first row over all columns, and its body is drawn by the lines
  below that bar.
* An application owns the lines that end in the lowest row where a level or downward line ends.
  One of them is its bar, which ends in the first column of the argument.  What is left is divided
  at that column into the lines of the function and those of the argument.
* Anything else is a variable, and the height of its line tells the index.

**Key fact.**  `Term.mem_outlines_func_iff` and `Term.mem_outlines_arg_iff`: the lines of an operand
are those lines of the application on its side that do not end in the lowest row.
-/

namespace Tromp

/-- What is seen of a stroke: whether it has round caps, and where its ends are. -/
structure Outline where
  rounded : Bool
  column1 : Nat
  row1 : Int
  column2 : Nat
  row2 : Int
deriving DecidableEq

namespace Outline

/-- The outline moved by columns and rows. -/
def shift (o : Outline) (columns rows : Nat) : Outline :=
  { o with column1 := columns + o.column1, row1 := rows + o.row1, column2 := columns + o.column2,
           row2 := rows + o.row2 }

/-- A level or downward line that ends in a row. -/
def EndsIn (o : Outline) (row : Int) : Prop := o.row1 ≤ o.row2 ∧ o.row2 = row

theorem shift_zero (o : Outline) : o.shift 0 0 = o := by
  simp [shift]

theorem shift_inj {o o' : Outline} {columns rows : Nat} :
    o.shift columns rows = o'.shift columns rows ↔ o = o' := by
  cases o
  cases o'
  simp [shift]

end Outline

/-- The outline of a stroke. -/
def Stroke.outline (k : Stroke) : Outline where
  rounded := k.role = .abstraction
  column1 := k.column1
  row1 := k.row1
  column2 := k.column2
  row2 := k.row2

namespace Term

variable {name : Option String} {numeral : Option Int} {body f a : Term} {o : Outline}

/-- The outlines of the lines of a term. -/
def outlines (t : Term) : List Outline := t.strokes.map Stroke.outline

/-- The bar of an abstraction over all columns of its body. -/
def headBar (body : Term) : Outline := ⟨true, 0, 0, body.width - 1, 0⟩

/-- The lowest row that a level or downward line of an application ends in. -/
def lowestRow (f a : Term) : Nat := max f.height a.height

/-- The bar of an application, from the first column to that of the argument. -/
def joinBar (f a : Term) : Outline := ⟨false, 0, lowestRow f a, f.width, lowestRow f a⟩

theorem mem_outlines_lam :
    o ∈ outlines (.lam name numeral body) ↔
      o = headBar body ∨ ∃ below ∈ body.outlines, below.shift 0 1 = o := by
  simp only [outlines, List.mem_map, mem_strokes_lam]
  constructor
  · rintro ⟨_, rfl | ⟨below, hbelow, rfl⟩, rfl⟩
    · exact .inl rfl
    · exact .inr ⟨_, ⟨below, hbelow, rfl⟩, rfl⟩
  · rintro (rfl | ⟨_, ⟨below, hbelow, rfl⟩, rfl⟩)
    · exact ⟨_, .inl rfl, rfl⟩
    · exact ⟨_, .inr ⟨below, hbelow, rfl⟩, rfl⟩

theorem mem_outlines_app :
    o ∈ outlines (.app f a) ↔
      o ∈ (Stroke.ofApplication f.width f.stem a.stem (lowestRow f a)).map Stroke.outline ∨
      o ∈ f.outlines ∨ ∃ below ∈ a.outlines, below.shift f.width 0 = o := by
  simp only [outlines, List.mem_map, mem_strokes_app]
  constructor
  · rintro ⟨k, hk | ⟨below, hbelow, rfl⟩ | ⟨below, hbelow, rfl⟩, rfl⟩
    · exact .inl ⟨k, hk, rfl⟩
    · exact .inr (.inl ⟨below, hbelow, (Outline.shift_zero _).symm⟩)
    · exact .inr (.inr ⟨_, ⟨below, hbelow, rfl⟩, rfl⟩)
  · rintro (⟨k, hk, rfl⟩ | ⟨below, hbelow, rfl⟩ | ⟨_, ⟨below, hbelow, rfl⟩, rfl⟩)
    · exact ⟨k, .inl hk, rfl⟩
    · exact ⟨_, .inr (.inl ⟨below, hbelow, rfl⟩), below.outline.shift_zero⟩
    · exact ⟨_, .inr (.inr ⟨below, hbelow, rfl⟩), rfl⟩

/-- The bounds of the lines of a term, as far as they can be seen. -/
theorem bounds_of_mem_outlines {t : Term} (h : o ∈ t.outlines) :
    o.column1 ≤ o.column2 ∧ o.column2 < t.width ∧ 0 ≤ o.row1 ∧
      (o.row1 ≤ o.row2 → o.row2 < t.height) := by
  obtain ⟨k, hk, rfl⟩ := List.mem_map.mp h
  have hfits := fits_of_mem_strokes hk
  refine ⟨hfits.column_le, hfits.column_lt, hfits.row_nonneg, fun hdown => ?_⟩
  simp only [Stroke.outline] at hdown ⊢
  cases hrole : k.role with
  | «variable» =>
      have hup := hfits.of_variable hrole
      omega
  | abstraction | application =>
      have hbar := hfits.of_bar (by rw [hrole]; rfl)
      omega
  | functionFiller | argumentFiller =>
      have hfiller := hfits.of_filler (by rw [hrole]; rfl)
      omega

/-- The lines of an application itself end in its lowest row, and have no round caps. -/
theorem endsIn_of_mem_own
    (h : o ∈ (Stroke.ofApplication f.width f.stem a.stem (lowestRow f a)).map Stroke.outline) :
    o.EndsIn (lowestRow f a) ∧ o.rounded = false ∧ (o.row1 = o.row2 → o = joinBar f a) := by
  obtain ⟨k, hk, rfl⟩ := List.mem_map.mp h
  rcases Stroke.mem_ofApplication_iff.mp hk with hk | hk | rfl
  · obtain ⟨hstem, rfl⟩ := Stroke.mem_filler_iff.mp hk
    have hdown : (f.stem : Int) < lowestRow f a := Int.ofNat_lt.mpr hstem
    exact ⟨⟨hdown.le, rfl⟩, rfl, fun hlevel => absurd hlevel hdown.ne⟩
  · obtain ⟨hstem, rfl⟩ := Stroke.mem_filler_iff.mp hk
    have hdown : (a.stem : Int) < lowestRow f a := Int.ofNat_lt.mpr hstem
    exact ⟨⟨hdown.le, rfl⟩, rfl, fun hlevel => absurd hlevel hdown.ne⟩
  · exact ⟨⟨le_refl (lowestRow f a : Int), rfl⟩, rfl, fun _ => rfl⟩

theorem joinBar_mem (f a : Term) : joinBar f a ∈ outlines (.app f a) :=
  mem_outlines_app.mpr (.inl (List.mem_map_of_mem (Stroke.joint_mem_ofApplication ..)))

theorem headBar_mem (name : Option String) (numeral : Option Int) (body : Term) :
    headBar body ∈ outlines (.lam name numeral body) := mem_outlines_lam.mpr (.inl rfl)

/-- **Reading off a body.** -/
theorem mem_outlines_body_iff :
    o ∈ body.outlines ↔ 0 ≤ o.row1 ∧ o.shift 0 1 ∈ outlines (.lam name numeral body) := by
  constructor
  · intro h
    exact ⟨(bounds_of_mem_outlines h).2.2.1, mem_outlines_lam.mpr (.inr ⟨o, h, rfl⟩)⟩
  · rintro ⟨hrow, h⟩
    rcases mem_outlines_lam.mp h with h | ⟨below, hbelow, h⟩
    · have hfirst : ((1 : Nat) : Int) + o.row1 = 0 := congrArg Outline.row1 h
      omega
    · rwa [← Outline.shift_inj.mp h]

/-- **Reading off a function.** -/
theorem mem_outlines_func_iff :
    o ∈ f.outlines ↔
      o ∈ outlines (.app f a) ∧ o.column2 < f.width ∧ ¬ o.EndsIn (lowestRow f a) := by
  constructor
  · intro h
    obtain ⟨-, hcolumn, -, hrow⟩ := bounds_of_mem_outlines h
    refine ⟨mem_outlines_app.mpr (.inr (.inl h)), hcolumn, ?_⟩
    rintro ⟨hdown, hends⟩
    have hlow := hrow hdown
    have hmax := Nat.le_max_left f.height a.height
    simp only [lowestRow] at hends
    omega
  · rintro ⟨h, hcolumn, hends⟩
    rcases mem_outlines_app.mp h with h | h | ⟨below, hbelow, rfl⟩
    · exact absurd (endsIn_of_mem_own h).1 hends
    · exact h
    · simp only [Outline.shift] at hcolumn
      omega

/-- **Reading off an argument.** -/
theorem mem_outlines_arg_iff :
    o ∈ a.outlines ↔
      o.shift f.width 0 ∈ outlines (.app f a) ∧ ¬ o.EndsIn (lowestRow f a) := by
  constructor
  · intro h
    obtain ⟨-, hcolumn, -, hrow⟩ := bounds_of_mem_outlines h
    refine ⟨mem_outlines_app.mpr (.inr (.inr ⟨o, h, rfl⟩)), ?_⟩
    rintro ⟨hdown, hends⟩
    have hlow := hrow hdown
    have hmax := Nat.le_max_right f.height a.height
    simp only [lowestRow] at hends
    omega
  · rintro ⟨h, hends⟩
    rcases mem_outlines_app.mp h with h | h | ⟨below, hbelow, h⟩
    · have hown := (endsIn_of_mem_own h).1
      simp only [Outline.EndsIn, Outline.shift] at hown hends
      omega
    · have hcolumn := (bounds_of_mem_outlines h).2.1
      simp only [Outline.shift] at hcolumn
      omega
    · rwa [← Outline.shift_inj.mp h]

/-- The bar of an application is its only level line in the lowest row. -/
theorem eq_joinBar (h : o ∈ outlines (.app f a)) (hlevel : o.row1 = o.row2)
    (hrow : o.row2 = lowestRow f a) : o = joinBar f a := by
  have hends : o.EndsIn (lowestRow f a) := ⟨hlevel.le, hrow⟩
  rcases mem_outlines_app.mp h with h | h | ⟨below, hbelow, rfl⟩
  · exact (endsIn_of_mem_own h).2.2 hlevel
  · exact absurd hends (mem_outlines_func_iff.mp h).2.2
  · refine absurd ?_ (mem_outlines_arg_iff (f := f) |>.mp hbelow).2
    simpa [Outline.EndsIn, Outline.shift] using hends

/-- Whether a variable is marked free. -/
def hasFree : Term → Bool
  | .var _ _ free => free
  | .lam _ _ body => hasFree body
  | .app f a => hasFree f || hasFree a

/-- A term that a diagram determines: every variable has an index, and none is free. -/
def IsBound (t : Term) : Prop := t.isResolved = true ∧ t.hasFree = false

theorem IsBound.eq_var {index : Option Nat} {free : Bool} (h : IsBound (.var name index free)) :
    ∃ i, index = some i ∧ free = false := by
  obtain ⟨hindex, hfree⟩ := h
  cases index with
  | none => cases hindex
  | some i => exact ⟨i, rfl, hfree⟩

theorem isBound_app : IsBound (.app f a) ↔ f.IsBound ∧ a.IsBound := by
  simp [IsBound, isResolved, hasFree]
  tauto

/-- The line of a variable is not level. -/
theorem not_level_of_mem_outlines_var {i : Nat} {free : Bool}
    (h : o ∈ outlines (.var name (some i) free)) : o.row1 ≠ o.row2 := by
  obtain rfl := List.mem_singleton.mp h
  simp only [Stroke.outline, Stroke.ofVariable]
  omega

/-- What would be the bar of an abstraction reaches no further than the function of an application,
and the bar of the application further. -/
theorem outlines_lam_ne_app (h : ∀ o, o ∈ outlines (.lam name numeral body) ↔
    o ∈ outlines (.app f a)) : False := by
  have hjoin := bounds_of_mem_outlines ((h _).mpr (joinBar_mem f a))
  have hbody := body.width_pos
  rcases mem_outlines_app.mp ((h _).mp (headBar_mem name numeral body)) with
    hown | hfunc | ⟨below, hbelow, heq⟩
  · cases (endsIn_of_mem_own hown).2.1
  · have hfunction := bounds_of_mem_outlines hfunc
    simp only [headBar, joinBar, width] at hfunction hjoin
    omega
  · have hcolumn : f.width + below.column1 = 0 := congrArg Outline.column1 heq
    have hf := f.width_pos
    omega

theorem lowestRow_le {f' a' : Term}
    (h : ∀ o, o ∈ outlines (.app f a) → o ∈ outlines (.app f' a')) :
    lowestRow f a ≤ lowestRow f' a' := by
  obtain ⟨-, -, -, hrow⟩ := bounds_of_mem_outlines (h _ (joinBar_mem f a))
  have hjoin := hrow (le_refl (lowestRow f a : Int))
  exact Nat.lt_succ_iff.mp (Int.ofNat_lt.mp hjoin)

/-- Applications with the same lines have the same bar. -/
theorem joinBar_eq_of_outlines {f' a' : Term}
    (h : ∀ o, o ∈ outlines (.app f a) ↔ o ∈ outlines (.app f' a')) :
    lowestRow f a = lowestRow f' a' ∧ f.width = f'.width := by
  have hrow : lowestRow f a = lowestRow f' a' :=
    Nat.le_antisymm (lowestRow_le fun o => (h o).mp) (lowestRow_le fun o => (h o).mpr)
  have hbar : joinBar f a = joinBar f' a' :=
    eq_joinBar ((h _).mp (joinBar_mem f a)) rfl (congrArg Int.ofNat hrow)
  exact ⟨hrow, congrArg Outline.column2 hbar⟩

/-- **The lines of a term determine it.**  By induction on the term: its root is told by the bars,
and the lines of what is below the root are read off. -/
theorem nameless_eq_of_outlines {t u : Term} (ht : t.IsBound) (hu : u.IsBound)
    (h : ∀ o, o ∈ t.outlines ↔ o ∈ u.outlines) : t.nameless = u.nameless := by
  induction t using Term.induction generalizing u with
  | var name index free =>
      obtain ⟨i, rfl, rfl⟩ := ht.eq_var
      cases u with
      | foreign e => exact e.elim
      | var name' index' free' =>
          obtain ⟨j, rfl, rfl⟩ := hu.eq_var
          have hline := List.mem_singleton.mp ((h _).mp (List.mem_singleton_self _))
          have hij : -((i : Int) + 1) = -((j : Int) + 1) := congrArg Outline.row2 hline
          obtain rfl : i = j := by omega
          rfl
      | lam name' numeral' body' =>
          have hbar := (h _).mpr (headBar_mem name' numeral' body')
          exact absurd rfl (not_level_of_mem_outlines_var hbar)
      | app f' a' =>
          have hbar := (h _).mpr (joinBar_mem f' a')
          exact absurd rfl (not_level_of_mem_outlines_var hbar)
  | lam name numeral body ih =>
      cases u with
      | foreign e => exact e.elim
      | var name' index' free' =>
          obtain ⟨j, rfl, rfl⟩ := hu.eq_var
          have hbar := (h _).mp (headBar_mem name numeral body)
          exact absurd rfl (not_level_of_mem_outlines_var hbar)
      | lam name' numeral' body' =>
          have hbody : ∀ o, o ∈ outlines body ↔ o ∈ outlines body' := by
            intro o
            exact (mem_outlines_body_iff.trans (and_congr_right fun _ => h _)).trans
              mem_outlines_body_iff.symm
          rw [nameless, nameless, ih (u := body') ht hu hbody]
      | app f' a' => exact (outlines_lam_ne_app h).elim
  | app f a ihf iha =>
      cases u with
      | foreign e => exact e.elim
      | var name' index' free' =>
          obtain ⟨j, rfl, rfl⟩ := hu.eq_var
          have hbar := (h _).mp (joinBar_mem f a)
          exact absurd rfl (not_level_of_mem_outlines_var hbar)
      | lam name' numeral' body' => exact (outlines_lam_ne_app fun o => (h o).symm).elim
      | app f' a' =>
          obtain ⟨hf, ha⟩ := isBound_app.mp ht
          obtain ⟨hf', ha'⟩ := isBound_app.mp hu
          obtain ⟨hrow, hwidth⟩ := joinBar_eq_of_outlines h
          have hfunc : ∀ o, o ∈ outlines f ↔ o ∈ outlines f' := by
            intro o
            rw [mem_outlines_func_iff (a := a), h, hwidth, hrow, ← mem_outlines_func_iff]
          have harg : ∀ o, o ∈ outlines a ↔ o ∈ outlines a' := by
            intro o
            rw [mem_outlines_arg_iff (f := f), h, hwidth, hrow, ← mem_outlines_arg_iff]
          rw [nameless, nameless, ihf hf hf' hfunc, iha ha ha' harg]

end Term

/-- A line less its colour and its width. -/
def Segment.shape (s : Segment Rat) : Rat × Rat × Rat × Rat × Bool :=
  (s.x1, s.y1, s.x2, s.y2, s.rounded)

namespace Painter

variable {p : Painter Rat}

/-- How an outline is seen in a drawing. -/
def shapeOf (p : Painter Rat) (o : Outline) : Rat × Rat × Rat × Rat × Bool :=
  let beyond := if o.rounded then p.settings.binderOverhang * p.unit else 0
  ((2 * o.column1 + 1) * p.unit - beyond, o.row1 * p.unit, (2 * o.column2 + 1) * p.unit + beyond,
    o.row2 * p.unit, o.rounded)

theorem shape_segment (color : String) (k : Stroke) :
    (p.segment color k).shape = p.shapeOf k.outline := by
  cases hrole : k.role <;>
    simp [segment, Segment.shape, shapeOf, Stroke.outline, overhang, hrole]

/-- Outlines can be told apart where rows have a size. -/
theorem shapeOf_injective (hunit : 0 < p.unit) : Function.Injective p.shapeOf := by
  rintro ⟨rounded, column1, row1, column2, row2⟩ ⟨rounded', column1', row1', column2', row2'⟩ h
  simp only [shapeOf, Prod.mk.injEq] at h
  obtain ⟨hx1, hy1, hx2, hy2, rfl⟩ := h
  obtain rfl := (column_inj hunit).mp (sub_left_injective hx1)
  obtain rfl := (column_inj hunit).mp (add_left_injective _ hx2)
  obtain rfl := (row_inj hunit).mp hy1
  obtain rfl := (row_inj hunit).mp hy2
  rfl

/-- The shapes of a drawing are the outlines of its term. -/
theorem Shows.mem_shapes_iff {t : Term} {binders : List String} {d : Fragment Rat}
    (h : p.Shows t binders d) (x : Rat × Rat × Rat × Rat × Bool) :
    x ∈ d.segments.map Segment.shape ↔ x ∈ t.outlines.map p.shapeOf := by
  obtain ⟨colors, -, hsegments⟩ := h.segments_eq
  simp only [hsegments, Term.outlines, List.map_map, Function.comp_def, shape_segment]

/-- **A diagram determines its term.**  Two terms without free variables are drawn from any states
of the painter, and if the drawings have the same lines, as sets and up to colours, the terms differ
in names and tags only. -/
theorem draw_determines_term (hunit : 0 < p.unit) {t u : Term}
    (ht : t.isValid 0 = true) (hu : u.isValid 0 = true) (htf : t.hasFree = false)
    (huf : u.hasFree = false) {site site' : Site Rat} (hsite : site.binders = [])
    (hsite' : site'.binders = []) (st st' : PaintState Rat) :
    ∃ d e, ((p.draw t site).run.run st).1 = .ok d ∧ ((p.draw u site').run.run st').1 = .ok e ∧
      ((∀ x, x ∈ d.segments.map Segment.shape ↔ x ∈ e.segments.map Segment.shape) →
        t.nameless = u.nameless) := by
  have ht' : t.isValid (site.binders.length : Int) = true := by rwa [hsite]
  have hu' : u.isValid (site'.binders.length : Int) = true := by rwa [hsite']
  obtain ⟨d, hd, hdt⟩ := p.exists_draw site ht' st
  obtain ⟨e, he, heu⟩ := p.exists_draw site' hu' st'
  refine ⟨d, e, hd, he, fun hsame => ?_⟩
  refine Term.nameless_eq_of_outlines ⟨Term.isResolved_of_isValid ht, htf⟩
    ⟨Term.isResolved_of_isValid hu, huf⟩ fun o => ?_
  have hinj := shapeOf_injective hunit
  rw [← List.mem_map_of_injective hinj, ← hdt.mem_shapes_iff, hsame, heu.mem_shapes_iff,
    List.mem_map_of_injective hinj]

/-- A term that is given twice, the second time with other names and without its tag. -/
theorem draw_determines_term_renamed :
    let first : Term := .lam (some "x") none (.lam (some "y") (some 2)
      (.app (.var (some "x") (some 1) false) (.var (some "y") (some 0) false)))
    let second : Term := .lam none none (.lam (some "x") none
      (.app (.var none (some 1) false) (.var (some "x") (some 0) false)))
    ∃ (p : Painter Rat) (d e : Fragment Rat), p.settings.IsAccepted ∧ 0 < p.unit ∧
      ((p.draw first .root).run.run (.start p.settings)).1 = .ok d ∧
      ((p.draw second .root).run.run (.start p.settings)).1 = .ok e ∧
      (∀ x, x ∈ d.segments.map Segment.shape ↔ x ∈ e.segments.map Segment.shape) ∧
      first.nameless = second.nameless := by
  intro first second
  obtain ⟨s, hs, -⟩ := LayoutSettings.exists_build
  let p : Painter Rat := { settings := s, unit := 1 }
  have hroot : (Site.root : Site Rat).binders = [] := rfl
  obtain ⟨d, e, hd, he, hsame⟩ := draw_determines_term (p := p) (t := first) (u := second)
    one_pos rfl rfl rfl rfl hroot hroot (.start s) (.start s)
  obtain ⟨d', hd', hfirst⟩ := p.exists_draw (t := first) .root rfl (.start s)
  obtain ⟨e', he', hsecond⟩ := p.exists_draw (t := second) .root rfl (.start s)
  obtain rfl := Except.ok.inj (hd.symm.trans hd')
  obtain rfl := Except.ok.inj (he.symm.trans he')
  have hshapes : ∀ x, x ∈ d.segments.map Segment.shape ↔ x ∈ e.segments.map Segment.shape := by
    intro x
    rw [hfirst.mem_shapes_iff, hsecond.mem_shapes_iff]
    rfl
  exact ⟨p, d, e, .of_build hs, one_pos, hd, he, hshapes, hsame hshapes⟩

end Painter

end Tromp
