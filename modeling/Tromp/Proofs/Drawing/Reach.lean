import Mathlib.Tactic.Linarith
import Tromp.Proofs.Drawing.Layout
import Tromp.Proofs.Drawing.Scale
import Tromp.Proofs.Drawing.Segments

/-!
# Variables reach their abstractions

In the drawing of a term every variable is an upright line.  That of a bound variable ends on the bar
of its abstraction, the one that is reached by crossing as many enclosing abstractions as its index
says, and has the colour of that bar; that of a free variable has the colour of free variables.

`Fragment.lineOf?` finds the line of a node in a drawing by its place in the order of drawing, which
is that of the strokes of the term.  That a node has no more than one line in a role makes it the
line of the node.
-/

namespace Tromp

/-- The line of a node of a term in the drawing of the term. -/
def Fragment.lineOf? (d : Fragment Rat) (t : Term) (node : Address) (role : StrokeRole) :
    Option (Segment Rat) :=
  ((t.strokes.map Stroke.key).zip d.segments).lookup (node, role)

/-- An upright line, drawn upwards. -/
structure Segment.IsUpright (s : Segment Rat) : Prop where
  vertical : s.x1 = s.x2
  upward : s.y2 < s.y1

/-- The upper end of a line lies on a level bar, and both have one colour. -/
structure Segment.Reaches (line bar : Segment Rat) : Prop where
  level : bar.y1 = bar.y2
  meets : line.y2 = bar.y1
  left_le : bar.x1 ≤ line.x2
  le_right : line.x2 ≤ bar.x2
  color_eq : line.color = bar.color

/-- Strokes of different keys are found in a list by their keys. -/
theorem Stroke.lookup_zip_map {β : Type} (f : Stroke → β) {l : List Stroke}
    (hl : (l.map key).Nodup) {k : Stroke} (hk : k ∈ l) :
    ((l.map key).zip (l.map f)).lookup k.key = some (f k) := by
  induction l with
  | nil => cases hk
  | cons first rest ih =>
      obtain ⟨hfirst, hrest⟩ := List.nodup_cons.mp hl
      rcases List.mem_cons.mp hk with rfl | hk
      · simp
      · have hne : (k.key == first.key) = false := by
          rw [beq_eq_false_iff_ne]
          intro heq
          exact hfirst (heq ▸ List.mem_map_of_mem hk)
        rw [List.map_cons, List.map_cons, List.zip_cons_cons, List.lookup_cons, hne]
        exact ih hrest hk

namespace Painter

variable {p : Painter Rat} {t : Term} {binders : List String} {d : Fragment Rat}

/-- **The lines of a node** are its strokes where it stands, in its colour. -/
theorem Shows.exists_colors (h : p.Shows t binders d) :
    ∃ colors, p.IsColoring t binders colors ∧
      ∀ π u k, t.at? π = some u → k ∈ u.strokes → k.node = [] →
        d.lineOf? t π k.role =
          some (p.segment (colors π) (k.under π (t.column π) π.depth)) := by
  obtain ⟨colors, hcolors, hsegments⟩ := h.segments_eq
  refine ⟨colors, hcolors, fun π u k hπ hk hnode => ?_⟩
  have hnode' : (k.under π (t.column π) π.depth).node = π := by
    simp [Stroke.under, hnode]
  have hkey : (k.under π (t.column π) π.depth).key = (π, k.role) := by
    rw [Stroke.key, hnode']
    rfl
  have hfound := Stroke.lookup_zip_map (fun k => p.segment (colors k.node) k) t.nodup_strokes
    (Term.strokes_at? hπ hk)
  rwa [hkey, hnode', ← hsegments] at hfound

/-- The line of a variable is upright where rows have a size. -/
theorem segment_ofVariable_isUpright (hunit : 0 < p.unit) (color : String) (i : Nat) (π : Address)
    (columns rows : Nat) :
    (p.segment color ((Stroke.ofVariable i).under π columns rows)).IsUpright where
  vertical := by simp [segment, Stroke.under, Stroke.ofVariable, overhang]
  upward := by
    refine mul_lt_mul_of_pos_right ?_ hunit
    rw [Int.cast_lt]
    simp only [Stroke.under, Stroke.ofVariable]
    omega

theorem column_mono (hunit : 0 ≤ p.unit) {a b : Nat} (h : a ≤ b) :
    (2 * (a : Rat) + 1) * p.unit ≤ (2 * (b : Rat) + 1) * p.unit := by
  have hcast : (a : Rat) ≤ b := Nat.cast_le.mpr h
  exact mul_le_mul_of_nonneg_right (by linarith) hunit

/-- The line of a variable reaches a bar that stands so many rows higher, in a column of it. -/
theorem segment_ofVariable_reaches (hunit : 0 ≤ p.unit) (hoverhang : 0 ≤ p.settings.binderOverhang)
    (color : String) {i : Nat} {π ρ : Address} {column rows left width above : Nat}
    (hrows : rows = above + i + 1) (hleft : left ≤ column) (hright : column + 1 ≤ left + width) :
    (p.segment color ((Stroke.ofVariable i).under π column rows)).Reaches
      (p.segment color ((Stroke.ofAbstraction width).under ρ left above)) := by
  have hover : 0 ≤ p.overhang .abstraction := mul_nonneg hoverhang hunit
  have hfirst := column_mono hunit hleft
  have hlast := column_mono hunit (show column ≤ left + (width - 1) by omega)
  have hplain : p.overhang .variable = 0 := rfl
  refine { level := rfl, meets := ?_, left_le := ?_, le_right := ?_, color_eq := rfl }
  · subst hrows
    simp only [segment, Stroke.under, Stroke.ofVariable, Stroke.ofAbstraction]
    push_cast
    ring
  · simp only [segment, Stroke.under, Stroke.ofVariable, Stroke.ofAbstraction, hplain, add_zero]
    linarith
  · simp only [segment, Stroke.under, Stroke.ofVariable, Stroke.ofAbstraction, hplain, add_zero]
    linarith

end Painter

/-- What a laid out term shows: the rows have the size that was fitted to the canvas. -/
theorem shows_of_layout {s : LayoutSettings Rat} {t : Term} {d : Fragment Rat}
    (h : layout s t = .ok d) :
    ∃ term, d.unitSize = s.unitSize * s.scaleOf term ∧
      Painter.Shows { settings := s, unit := d.unitSize } t [] d := by
  obtain ⟨drawn, hrun, rfl⟩ := exists_drawNested_of_layout h
  obtain ⟨hwidth, hheight, hstem, hsegments⟩ := Painter.shows_of_yields ⟨_, _, hrun⟩
  exact ⟨t, rfl, hwidth, hheight, hstem, hsegments⟩

/-- **Variables reach their abstractions.**  In the drawing of a term every variable has an index and
an upright line, in the column of the variable, from the row below the abstractions around it.  The
line of a free variable has the colour of free variables.  That of a bound one reaches the bar of its
abstraction, below which the way to the variable crosses as many abstractions as the index says. -/
theorem layout_variable_reaches_binder {s : LayoutSettings Rat} {t : Term} {d : Fragment Rat}
    (hs : s.IsAccepted) (hd : layout s t = .ok d) {π : Address} {name : Option String}
    {index : Option Nat} {free : Bool} (hπ : t.at? π = some (.var name index free)) :
    ∃ i line, index = some i ∧ d.lineOf? t π .variable = some line ∧ line.IsUpright ∧
      line.x1 = (2 * t.column π + 1) * d.unitSize ∧ line.y1 = π.depth * d.unitSize ∧
      (free = true → line.color = s.freeColor) ∧
      (free = false → ∃ (ρ σ : Address) (name : Option String) (numeral : Option Int) (body : Term)
        (bar : Segment Rat), π = ρ ++ .body :: σ ∧ σ.depth = i ∧
        t.at? ρ = some (.lam name numeral body) ∧ d.lineOf? t ρ .abstraction = some bar ∧
        bar.y1 = ρ.depth * d.unitSize ∧ line.Reaches bar) := by
  obtain ⟨term, hunit, hshows⟩ := shows_of_layout hd
  have hpos : 0 < d.unitSize := hunit ▸ hs.bounds.unitSize_mul_scaleOf_pos term
  obtain ⟨colors, hcolors, hlines⟩ := hshows.exists_colors
  obtain ⟨i, rfl, hfree, hbound⟩ := hcolors π name index free hπ
  have hline := hlines π _ (.ofVariable i) hπ (List.mem_singleton_self _) rfl
  refine ⟨i, _, rfl, hline, Painter.segment_ofVariable_isUpright hpos .., ?_, ?_, hfree,
    fun hfalse => ?_⟩
  · simp [Painter.segment, Stroke.under, Stroke.ofVariable, Painter.overhang]
  · simp [Painter.segment, Stroke.under, Stroke.ofVariable]
  · have hbinder := hbound hfalse
    rw [List.append_nil, List.getElem?_map, Option.map_eq_some_iff] at hbinder
    obtain ⟨ρ, hρ, hcolor⟩ := hbinder
    obtain ⟨σ, rfl, hσ⟩ := Address.enclosing_getElem? hρ
    obtain ⟨name', numeral, body, hlam, hleft, hright⟩ := Term.exists_lam_of_at? hπ
    have hbar := hlines ρ _ (.ofAbstraction (Term.width body)) hlam List.mem_cons_self rfl
    refine ⟨ρ, σ, name', numeral, body, _, rfl, hσ, hlam, hbar, ?_, ?_⟩
    · simp [Painter.segment, Stroke.under, Stroke.ofAbstraction]
    · have hdepth : Address.depth (ρ ++ .body :: σ) = ρ.depth + i + 1 := by
        rw [Address.depth_append, Address.depth, hσ]
        omega
      rw [hcolor]
      exact Painter.segment_ofVariable_reaches hpos.le hs.bounds.binderOverhang_nonneg _ hdepth
        hleft hright

/-- An occurrence of the outer variable of a numeral, two abstractions below the one that binds it. -/
theorem layout_variable_reaches_binder_in_numeral :
    let f : Term := .var (some "f") (some 1) false
    let two : Term := .lam (some "f") (some 2)
      (.lam (some "x") none (.app f (.app f (.var (some "x") (some 0) false))))
    let t : Term := .app two (.var (some "y") (some 0) true)
    let π : Address := [.func, .body, .body, .arg, .func]
    ∃ (s : LayoutSettings Rat) (d : Fragment Rat), s.IsAccepted ∧ layout s t = .ok d ∧
      t.at? π = some f ∧ ∃ line bar ρ σ, d.lineOf? t π .variable = some line ∧ line.IsUpright ∧
        π = ρ ++ .body :: σ ∧ Address.depth σ = 1 ∧
        d.lineOf? t ρ .abstraction = some bar ∧ line.Reaches bar := by
  intro f two t π
  have hdrawn : (match LayoutSettings.build (α := Rat) fun _ => none with
      | .ok s => (layout s t).toBool
      | .error _ => false) = true := by decide +kernel
  split at hdrawn
  next s hs =>
      rcases hd : layout s t with fault | d
      · rw [hd] at hdrawn
        cases hdrawn
      · have haccepted := LayoutSettings.IsAccepted.of_build hs
        obtain ⟨i, line, hi, hline, hupright, -, -, -, hbound⟩ :=
          layout_variable_reaches_binder (π := π) haccepted hd rfl
        obtain rfl := Option.some.inj hi
        obtain ⟨ρ, σ, _, _, _, bar, hπ, hσ, -, hbar, -, hreaches⟩ := hbound rfl
        exact ⟨s, d, haccepted, hd, rfl, line, bar, ρ, σ, hline, hupright, hπ, hσ, hbar, hreaches⟩
  next => cases hdrawn

end Tromp
