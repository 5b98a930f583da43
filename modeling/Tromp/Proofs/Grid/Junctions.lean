import Tromp.Proofs.Grid.Bridges

/-!
# Junctions and their surroundings

Markers are resolved all at once, from the grid before the pass, where a marker reaches every side.
That the junctions fit together afterwards rests on two facts.  A junction keeps every side that it
joins (`Glyph.reaches_junction`), so of two markers next to each other each still reaches the other.
And a junction of two sides or more has no other arm (`Glyph.reaches_junction_iff`).
-/

namespace Tromp

namespace Side

/-- A choice of sides. -/
def choice (north east south west : Bool) : Side → Bool
  | .north => north
  | .east => east
  | .south => south
  | .west => west

theorem choice_eta (f : Side → Bool) :
    choice (f .north) (f .east) (f .south) (f .west) = f := by
  funext s
  cases s <;> rfl

@[simp] theorem opposite_opposite (s : Side) : s.opposite.opposite = s := by
  cases s <;> rfl

/-- The step back cancels the step. -/
theorem step_opposite (s : Side) : s.opposite.step = (-s.step.1, -s.step.2) := by
  cases s <;> rfl

end Side

namespace Glyph

/-- The table of junctions: the character that joins some sides, from the north clockwise. -/
def junctions : List (List Side × Char) :=
  [([.north, .east, .south, .west], '┼'),
    ([.north, .south, .west], '┤'),
    ([.north, .east, .south], '├'),
    ([.north, .east, .west], '┴'),
    ([.east, .south, .west], '┬'),
    ([.north, .south], vertical),
    ([.east, .west], horizontal),
    ([.north, .east], '└'),
    ([.north, .west], '┘'),
    ([.east, .south], '┌'),
    ([.south, .west], '┐'),
    ([.north], vertical),
    ([.south], vertical),
    ([.east], horizontal),
    ([.west], horizontal),
    ([], '┼')]

/-- The junction of a choice of sides. -/
def junctionOf (joined : Side → Bool) : Char :=
  junction (joined .north) (joined .east) (joined .south) (joined .west)

variable {joined : Side → Bool} {s : Side}

/-- **The table has an entry for every choice of sides**, and it is their junction. -/
theorem lookup_junctions (joined : Side → Bool) :
    junctions.lookup (Side.all.filter joined) = some (junctionOf joined) := by
  have hall : ∀ n e s w, junctions.lookup (Side.all.filter (Side.choice n e s w)) =
      some (junctionOf (Side.choice n e s w)) := by
    decide
  rw [← Side.choice_eta joined]
  exact hall _ _ _ _

/-- A junction reaches every side that it joins. -/
theorem reaches_junction (h : joined s = true) : reaches (junctionOf joined) s = true := by
  have hall : ∀ n e s w, ∀ d ∈ Side.all, Side.choice n e s w d = true →
      reaches (junctionOf (Side.choice n e s w)) d = true := by
    decide
  rw [← Side.choice_eta joined] at h ⊢
  exact hall _ _ _ _ s (by cases s <;> decide) h

/-- A junction of two sides or more reaches no other. -/
theorem reaches_junction_iff (h : 2 ≤ (Side.all.filter joined).length) :
    reaches (junctionOf joined) s = true ↔ joined s = true := by
  have hall : ∀ n e s w, 2 ≤ (Side.all.filter (Side.choice n e s w)).length → ∀ d ∈ Side.all,
      reaches (junctionOf (Side.choice n e s w)) d = true → Side.choice n e s w d = true := by
    decide
  refine ⟨?_, reaches_junction⟩
  rw [← Side.choice_eta joined] at h ⊢
  exact hall _ _ _ _ h s (by cases s <;> decide)

theorem reaches_marker (s : Side) : reaches marker s = true := by
  cases s <;> decide

end Glyph

namespace Grid

variable {g : Grid} {i j : Int} {s : Side} {x : Char}

/-- Whether a position is on the grid and its character has an arm towards a side. -/
def HasArm (g : Grid) (row col : Int) (s : Side) : Prop :=
  ∃ x, g.get? row col = some x ∧ Glyph.reaches x s = true

/-- The sides of a position from which its neighbours reach back to it. -/
def reachedSides (g : Grid) (row col : Int) : List Side := Side.all.filter (g.isReachedFrom row col)

theorem isReachedFrom_iff : g.isReachedFrom i j s = true ↔
    g.HasArm (i + s.step.1) (j + s.step.2) s.opposite := by
  unfold isReachedFrom HasArm
  cases g.get? (i + s.step.1) (j + s.step.2) <;> simp

/-- The position that a step and the step back lead to. -/
theorem step_back (i j : Int) (s : Side) :
    (i + s.step.1 + s.opposite.step.1, j + s.step.2 + s.opposite.step.2) = (i, j) := by
  rw [Side.step_opposite]
  simp

/-- Every marker becomes the junction of the sides from which it is reached. -/
theorem get?_resolveCrossings_of_marker (h : g.get? i j = some Glyph.marker) :
    g.resolveCrossings.get? i j = some (Glyph.junctionOf (g.isReachedFrom i j)) := by
  rw [get?_resolveCrossings, h]
  rfl

/-- Nothing but markers changes. -/
theorem get?_resolveCrossings_of_ne (h : g.get? i j = some x) (hx : x ≠ Glyph.marker) :
    g.resolveCrossings.get? i j = some x := by
  rw [get?_resolveCrossings, h, Option.map_some, if_neg hx]

/-- No marker is left. -/
theorem get?_resolveCrossings_ne : g.resolveCrossings.get? i j ≠ some Glyph.marker := by
  intro h
  cases hx : g.get? i j with
  | none => rw [get?_resolveCrossings, hx] at h; cases h
  | some x =>
      by_cases hmarker : x = Glyph.marker
      · subst hmarker
        rw [get?_resolveCrossings_of_marker hx] at h
        exact (Glyph.junction_ne _ _ _ _).2 (Option.some.inj h)
      · rw [get?_resolveCrossings_of_ne hx hmarker] at h
        exact hmarker (Option.some.inj h)

/-- **The neighbour of a marker reaches it after the pass exactly when it did before.**  The
neighbour may be a marker itself: it reached every side before, and its junction joins the side of
the other marker, which reached it. -/
theorem hasArm_resolveCrossings_iff (h : g.get? i j = some Glyph.marker) :
    g.resolveCrossings.HasArm (i + s.step.1) (j + s.step.2) s.opposite ↔
      g.isReachedFrom i j s = true := by
  rw [isReachedFrom_iff]
  cases hx : g.get? (i + s.step.1) (j + s.step.2) with
  | none =>
      have hafter : g.resolveCrossings.get? (i + s.step.1) (j + s.step.2) = none := by
        rw [get?_resolveCrossings, hx]
        rfl
      simp [HasArm, hx, hafter]
  | some x =>
      by_cases hmarker : x = Glyph.marker
      · subst hmarker
        have hback : g.isReachedFrom (i + s.step.1) (j + s.step.2) s.opposite = true := by
          obtain ⟨hi, hj⟩ := Prod.mk.inj (step_back i j s)
          rw [isReachedFrom_iff, hi, hj, Side.opposite_opposite]
          exact ⟨Glyph.marker, h, Glyph.reaches_marker s⟩
        have hafter := get?_resolveCrossings_of_marker hx
        constructor
        · intro _
          exact ⟨Glyph.marker, hx, Glyph.reaches_marker _⟩
        · intro _
          exact ⟨_, hafter, Glyph.reaches_junction hback⟩
      · simp [HasArm, hx, get?_resolveCrossings_of_ne hx hmarker]

/-- **Junctions match their surroundings.**  Resolving the crossings of a grid finds an entry in the
table of junctions for every marker, changes nothing but markers and leaves none.  And where a marker
was reached from two sides or more, what stands there afterwards has an arm towards a side exactly
when there is a neighbour on that side and the neighbour has one back. -/
theorem resolveCrossings_fits (g : Grid) :
    (g.resolveCrossings.rows = g.rows ∧ g.resolveCrossings.cols = g.cols) ∧
      (∀ i j, g.get? i j = some Glyph.marker →
        ∃ junction, Glyph.junctions.lookup (g.reachedSides i j) = some junction ∧
          g.resolveCrossings.get? i j = some junction) ∧
      (∀ i j, g.get? i j ≠ some Glyph.marker → g.resolveCrossings.get? i j = g.get? i j) ∧
      (∀ i j, g.resolveCrossings.get? i j ≠ some Glyph.marker) ∧
      ∀ i j, g.get? i j = some Glyph.marker → 2 ≤ (g.reachedSides i j).length → ∀ s,
        g.resolveCrossings.HasArm i j s ↔
          g.resolveCrossings.HasArm (i + s.step.1) (j + s.step.2) s.opposite := by
  refine ⟨⟨rfl, rfl⟩, ?table, ?others, fun i j => get?_resolveCrossings_ne, ?fits⟩
  case table =>
    intro i j h
    exact ⟨_, Glyph.lookup_junctions _, get?_resolveCrossings_of_marker h⟩
  case others =>
    intro i j h
    cases hx : g.get? i j with
    | none => rw [get?_resolveCrossings, hx]; rfl
    | some x =>
        apply get?_resolveCrossings_of_ne hx
        rintro rfl
        exact h hx
  case fits =>
    intro i j h hreached s
    have harm : g.resolveCrossings.HasArm i j s ↔ g.isReachedFrom i j s = true := by
      rw [HasArm, get?_resolveCrossings_of_marker h, ← Glyph.reaches_junction_iff hreached]
      simp
    rw [harm, hasArm_resolveCrossings_iff h]

/-- Of two markers next to each other the first is a crossing of four lines, and the second reaches
back. -/
theorem resolveCrossings_fits_pair :
    let g := ofLines 3 [" │ ".toList, "─++".toList, " │ ".toList]
    g.get? 1 1 = some Glyph.marker ∧ 2 ≤ (g.reachedSides 1 1).length ∧
      (g.resolveCrossings.HasArm 1 1 .east ↔ g.resolveCrossings.HasArm 1 2 .west) := by
  intro g
  have hmarker : g.get? 1 1 = some Glyph.marker := by decide
  have hreached : 2 ≤ (g.reachedSides 1 1).length := by decide
  obtain ⟨-, -, -, -, hfits⟩ := resolveCrossings_fits g
  exact ⟨hmarker, hreached, hfits 1 1 hmarker hreached .east⟩

end Grid

end Tromp
