import Tromp.Proofs.Drawing.Extent

/-!
# Strokes that meet

On the grid of columns and rows a stroke *keeps clear* of a bar when the two have no column in
common, or when the bar stands where the stroke may be touched: no bar at the row of another bar,
a bar at an end of a filler, the bar of an application at the foot of a variable, and the bar of an
abstraction anywhere on the line of a variable that it encloses.

**Key fact.**  `Term.spares_of_mem_strokes`: every stroke of a term keeps clear of every other bar.
Bars above and below each other are told apart by their rows, which the bounds of `Stroke.Fits`
order; the operands of an application have no column in common.
-/

namespace Tromp

/-- What encloses an address encloses it seen from one turn above. -/
theorem Address.cons_mem_enclosing {π ρ : Address} (turn : Turn) (h : ρ ∈ π.enclosing) :
    turn :: ρ ∈ Address.enclosing (turn :: π) := by
  have hmap := List.mem_map_of_mem (f := (turn :: ·)) h
  cases turn with
  | body => exact List.mem_append_left _ hmap
  | func | arg => exact hmap

namespace Stroke

/-- Two strokes have a column in common. -/
def Abreast (k bar : Stroke) : Prop := k.column1 ≤ bar.column2 ∧ bar.column1 ≤ k.column2

/-- A stroke is touched by a bar at most where it may be. -/
structure Spares (k bar : Stroke) : Prop where
  of_bar : k.role.isBar → k.Abreast bar → bar.row1 ≠ k.row1
  of_filler : k.role.isFiller → k.Abreast bar → bar.row1 ≤ k.row1 ∨ k.row2 ≤ bar.row1
  of_application : k.role = .variable → bar.role = .application → k.Abreast bar → k.row1 ≤ bar.row1
  of_abstraction : k.role = .variable → bar.role = .abstraction → k.Abreast bar →
    bar.node ∈ k.node.enclosing

/-- Strokes without a common column keep clear of each other. -/
theorem spares_of_not_abreast {k bar : Stroke} (h : ¬ k.Abreast bar) : k.Spares bar where
  of_bar := fun _ habreast => absurd habreast h
  of_filler := fun _ habreast => absurd habreast h
  of_application := fun _ _ habreast => absurd habreast h
  of_abstraction := fun _ _ habreast => absurd habreast h

theorem abreast_under {k bar : Stroke} {π : Address} {columns rows : Nat} :
    (k.under π columns rows).Abreast (bar.under π columns rows) ↔ k.Abreast bar := by
  simp [Abreast, under]

/-- What keeps clear does so wherever it stands. -/
theorem Spares.under {k bar : Stroke} (h : k.Spares bar) (turn : Turn) (columns rows : Nat) :
    (k.under [turn] columns rows).Spares (bar.under [turn] columns rows) where
  of_bar := fun hrole habreast => by
    have hrow := h.of_bar hrole (abreast_under.mp habreast)
    simp only [Stroke.under]
    omega
  of_filler := fun hrole habreast => by
    have hrow := h.of_filler hrole (abreast_under.mp habreast)
    simp only [Stroke.under]
    omega
  of_application := fun hrole hbar habreast => by
    have hrow := h.of_application hrole hbar (abreast_under.mp habreast)
    simp only [Stroke.under]
    omega
  of_abstraction := fun hrole hbar habreast =>
    Address.cons_mem_enclosing turn (h.of_abstraction hrole hbar (abreast_under.mp habreast))

/-- A filler keeps clear of the bars that stand at its ends or beyond them. -/
theorem spares_of_isFiller {k bar : Stroke} (hrole : k.role.isFiller)
    (hrow : bar.row1 ≤ k.row1 ∨ k.row2 ≤ bar.row1) : k.Spares bar where
  of_bar := fun hbar => by
    rw [StrokeRole.isBar_eq_false hrole] at hbar
    cases hbar
  of_filler := fun _ _ => hrow
  of_application := fun hvariable => by simp [hvariable, StrokeRole.isFiller] at hrole
  of_abstraction := fun hvariable => by simp [hvariable, StrokeRole.isFiller] at hrole

/-- A bar keeps clear of the bars of other rows. -/
theorem spares_of_isBar {k bar : Stroke} (hrole : k.role.isBar) (hrow : bar.row1 ≠ k.row1) :
    k.Spares bar where
  of_bar := fun _ _ => hrow
  of_filler := fun hfiller => by
    rw [StrokeRole.isBar_eq_false hfiller] at hrole
    cases hrole
  of_application := fun hvariable => by simp [hvariable, StrokeRole.isBar] at hrole
  of_abstraction := fun hvariable => by simp [hvariable, StrokeRole.isBar] at hrole

/-- The strokes of an operand keep clear of the bar of its application, which is below them. -/
theorem Fits.spares_joint {k : Stroke} {t : Term} (h : k.Fits t) (π : Address)
    {columns width row : Nat} (hrow : t.height ≤ row) :
    (k.under π columns 0).Spares (joint width row) where
  of_bar := fun hrole _ => by
    have hbar := h.of_bar hrole
    simp only [Stroke.under, joint]
    omega
  of_filler := fun hrole _ => by
    have hfiller := h.of_filler hrole
    simp only [Stroke.under, joint]
    omega
  of_application := fun hrole _ _ => by
    have hvariable := h.of_variable hrole
    simp only [Stroke.under, joint]
    omega
  of_abstraction := fun _ hbar => by cases hbar

/-- The strokes of a body keep clear of the bar of its abstraction, which encloses the body. -/
theorem Fits.spares_ofAbstraction {k : Stroke} {t : Term} (h : k.Fits t) (width : Nat) :
    (k.under [.body] 0 1).Spares (ofAbstraction width) where
  of_bar := fun hrole _ => by
    have hrow := h.row_nonneg
    simp only [Stroke.under, ofAbstraction]
    omega
  of_filler := fun hrole _ => by
    have hrow := h.row_nonneg
    simp only [Stroke.under, ofAbstraction]
    omega
  of_application := fun _ hbar => by cases hbar
  of_abstraction := fun _ _ _ => List.mem_append_right _ (List.mem_singleton_self _)

end Stroke

namespace Term

variable {name : Option String} {numeral : Option Int} {body f a : Term} {k bar : Stroke}

/-- The strokes of an application itself keep clear of the bars of its operands. -/
theorem spares_of_mem_ofApplication (bar : Stroke)
    (hk : k ∈ Stroke.ofApplication f.width f.stem a.stem (max f.height a.height))
    (hrole : bar.role.isBar) :
    (bar.Fits f → k.Spares (bar.under [.func] 0 0)) ∧
      (bar.Fits a → k.Spares (bar.under [.arg] f.width 0)) := by
  have hmaxf := Nat.le_max_left f.height a.height
  have hmaxa := Nat.le_max_right f.height a.height
  have hwidth := f.width_pos
  rcases Stroke.mem_ofApplication_iff.mp hk with hk | hk | rfl
  · -- The filler of the function: the argument is in other columns.
    obtain ⟨hstem, rfl⟩ := Stroke.mem_filler_iff.mp hk
    refine ⟨fun hbar => Stroke.spares_of_isFiller rfl (.inl ?_),
      fun hbar => Stroke.spares_of_not_abreast ?_⟩
    · have hrow := hbar.of_bar hrole
      simp only [Stroke.under]
      omega
    · simp only [Stroke.Abreast, Stroke.under]
      omega
  · obtain ⟨hstem, rfl⟩ := Stroke.mem_filler_iff.mp hk
    refine ⟨fun hbar => Stroke.spares_of_not_abreast ?_,
      fun hbar => Stroke.spares_of_isFiller rfl (.inl ?_)⟩
    · have hcolumn := hbar.column_lt
      simp only [Stroke.Abreast, Stroke.under]
      omega
    · have hrow := hbar.of_bar hrole
      simp only [Stroke.under]
      omega
  · constructor <;>
    · intro hbar
      refine Stroke.spares_of_isBar rfl ?_
      have hrow := hbar.of_bar hrole
      simp only [Stroke.under, Stroke.joint]
      omega

/-- The bar of an application is the only bar among its own strokes. -/
theorem eq_joint_of_isBar {columns functionStem argumentStem row : Nat}
    (h : bar ∈ Stroke.ofApplication columns functionStem argumentStem row)
    (hrole : bar.role.isBar) : bar = .joint columns row := by
  rcases Stroke.mem_ofApplication_iff.mp h with h | h | rfl
  · obtain ⟨-, rfl⟩ := Stroke.mem_filler_iff.mp h
    cases hrole
  · obtain ⟨-, rfl⟩ := Stroke.mem_filler_iff.mp h
    cases hrole
  · rfl

/-- The other strokes of an application keep clear of its bar: the fillers end on it, and the
operands are above it. -/
theorem spares_joint (hk : k ∈ strokes (.app f a))
    (hne : k ≠ .joint f.width (max f.height a.height)) :
    k.Spares (.joint f.width (max f.height a.height)) := by
  have hend : ((max f.height a.height : Nat) : Int) ≤ (max f.height a.height : Nat) := le_refl _
  rcases mem_strokes_app.mp hk with hk | ⟨k', hk', rfl⟩ | ⟨k', hk', rfl⟩
  · rcases Stroke.mem_ofApplication_iff.mp hk with hk | hk | rfl
    · obtain ⟨-, rfl⟩ := Stroke.mem_filler_iff.mp hk
      exact Stroke.spares_of_isFiller rfl (.inr hend)
    · obtain ⟨-, rfl⟩ := Stroke.mem_filler_iff.mp hk
      exact Stroke.spares_of_isFiller rfl (.inr hend)
    · exact absurd rfl hne
  · exact (fits_of_mem_strokes hk').spares_joint _ (Nat.le_max_left _ _)
  · exact (fits_of_mem_strokes hk').spares_joint _ (Nat.le_max_right _ _)

/-- **Strokes keep clear of bars.** -/
theorem spares_of_mem_strokes {t : Term} (hk : k ∈ t.strokes) (hbar : bar ∈ t.strokes)
    (hrole : bar.role.isBar) (hne : k ≠ bar) : k.Spares bar := by
  induction t using Term.induction generalizing k bar with
  | var name index free =>
      cases index with
      | none => cases hbar
      | some i =>
          obtain rfl := List.mem_singleton.mp hbar
          cases hrole
  | lam name numeral body ih =>
      rcases mem_strokes_lam.mp hk with rfl | ⟨k', hk', rfl⟩ <;>
        rcases mem_strokes_lam.mp hbar with rfl | ⟨bar', hbar', rfl⟩
      · exact absurd rfl hne
      · refine Stroke.spares_of_isBar rfl ?_
        have hrow := (fits_of_mem_strokes hbar').row_nonneg
        simp only [Stroke.under, Stroke.ofAbstraction]
        omega
      · exact (fits_of_mem_strokes hk').spares_ofAbstraction _
      · exact (ih hk' hbar' hrole fun heq => hne (heq ▸ rfl)).under _ _ _
  | app f a ihf iha =>
      rcases mem_strokes_app.mp hbar with hown | ⟨bar', hbar', rfl⟩ | ⟨bar', hbar', rfl⟩
      · obtain rfl := eq_joint_of_isBar hown hrole
        exact spares_joint hk hne
      · rcases mem_strokes_app.mp hk with hown | ⟨k', hk', rfl⟩ | ⟨k', hk', rfl⟩
        · exact (spares_of_mem_ofApplication bar' hown hrole).1 (fits_of_mem_strokes hbar')
        · exact (ihf hk' hbar' hrole fun heq => hne (heq ▸ rfl)).under _ _ _
        · refine Stroke.spares_of_not_abreast ?_
          have hcolumn := (fits_of_mem_strokes hbar').column_lt
          simp only [Stroke.Abreast, Stroke.under]
          omega
      · rcases mem_strokes_app.mp hk with hown | ⟨k', hk', rfl⟩ | ⟨k', hk', rfl⟩
        · exact (spares_of_mem_ofApplication bar' hown hrole).2 (fits_of_mem_strokes hbar')
        · refine Stroke.spares_of_not_abreast ?_
          have hcolumn := (fits_of_mem_strokes hk').column_lt
          simp only [Stroke.Abreast, Stroke.under]
          omega
        · exact (iha hk' hbar' hrole fun heq => hne (heq ▸ rfl)).under _ _ _

end Term

end Tromp
