import Tromp.Proofs.Drawing.Boxes
import Tromp.Proofs.Drawing.Placement

/-!
# First fit

A registry that was empty at first is known by the captions that were placed: the box of the `j`th
caption is the `j`th box, and was added to the boxes before it, which stay as they are.  A caption
goes to the first of its 25 candidates that no box before it blocks, and to the fallback far above
its anchor only when all of them are blocked (`LabelRegistry.FirstFit`).

Collisions do not depend on the order of the two boxes.  So of two boxes that collide the later one
was placed in a **crowded** registry, where its caption had no free candidate
(`LabelRegistry.placeAll_firstFit`).  All this holds in any arithmetic.
-/

namespace Tromp

namespace LabelRegistry

variable {α : Type} [Scalar α] {r : LabelRegistry α} {c : Caption α} {spot : α × α}

/-- The box of a caption at a spot. -/
def boxAt (r : LabelRegistry α) (c : Caption α) (spot : α × α) : Box α :=
  r.box spot.1 spot.2 c.text c.fontSize

/-- A spot is blocked for a caption if its box there would collide with a registered one. -/
def Blocked (r : LabelRegistry α) (c : Caption α) (spot : α × α) : Prop :=
  ∃ b ∈ r.boxes, (r.boxAt c spot).collides b = true

/-- All candidates of a caption are blocked. -/
def Crowded (r : LabelRegistry α) (c : Caption α) : Prop :=
  ∀ spot ∈ r.candidates c.x c.y, r.Blocked c spot

/-- The first candidate of a caption that is not blocked, or the fallback if there is none. -/
inductive FirstFit (r : LabelRegistry α) (c : Caption α) : α × α → Prop where
  | candidate {before after : List (α × α)} {spot : α × α}
      (candidates_eq : r.candidates c.x c.y = before ++ spot :: after)
      (free : ¬ r.Blocked c spot) (blocked : ∀ other ∈ before, r.Blocked c other) :
      FirstFit r c spot
  | fallback (crowded : r.Crowded c) : FirstFit r c (r.farAbove c.x c.y c.fontSize)

theorem blocked_iff : r.Blocked c spot ↔ r.isFree (r.boxAt c spot) = false := by
  simp [Blocked, isFree]

theorem length_candidates (r : LabelRegistry α) (x y : α) : (r.candidates x y).length = 25 := rfl

/-- **A caption is placed by first fit.** -/
theorem firstFit_place (r : LabelRegistry α) (c : Caption α) :
    r.FirstFit c (r.place c.x c.y c.text c.fontSize).1 := by
  rcases r.placement_cases c with
    ⟨before, spot, after, heq, hplaced, hfree, hbefore⟩ | ⟨hplaced, hall⟩
  · have hspot : (r.place c.x c.y c.text c.fontSize).1 = spot :=
      Prod.ext (congrArg (·.placed.x) hplaced) (congrArg (·.placed.y) hplaced)
    rw [hspot]
    refine .candidate heq ?_ fun other hother => blocked_iff.mpr (hbefore other hother)
    rw [blocked_iff, Bool.not_eq_false]
    exact hfree
  · have hspot : (r.place c.x c.y c.text c.fontSize).1 = r.farAbove c.x c.y c.fontSize :=
      Prod.ext (congrArg (·.placed.x) hplaced) (congrArg (·.placed.y) hplaced)
    rw [hspot]
    exact .fallback fun other hother => blocked_iff.mpr (hall other hother)

/-- In a crowded registry a caption goes to the fallback. -/
theorem FirstFit.eq_farAbove (h : r.FirstFit c spot) (hcrowded : r.Crowded c) :
    spot = r.farAbove c.x c.y c.fontSize := by
  cases h with
  | candidate candidates_eq free _ =>
      have hmem : spot ∈ r.candidates c.x c.y := by
        rw [candidates_eq]
        exact List.mem_append_right _ List.mem_cons_self
      exact absurd (hcrowded spot hmem) free
  | fallback => rfl

/-- What is not placed at a candidate found all of them blocked. -/
theorem crowded_of_not_atCandidate (h : (r.placement c).atCandidate = false) : r.Crowded c := by
  rcases r.placement_cases c with ⟨_, _, _, -, hplaced, -⟩ | ⟨-, hall⟩
  · rw [hplaced] at h
    cases h
  · exact fun other hother => blocked_iff.mpr (hall other hother)

/-! ### Runs -/

variable {cs : List (Caption α)} {j : Nat}

/-- One more call: its caption is placed in the registry that the calls before it left. -/
theorem placeAll_take_succ (r : LabelRegistry α) (hj : cs[j]? = some c) :
    r.placeAll (cs.take (j + 1)) = (r.placeAll (cs.take j)).placing c := by
  obtain ⟨hlt, rfl⟩ := List.getElem?_eq_some_iff.mp hj
  rw [List.take_succ_eq_append_getElem hlt, placeAll_append]
  rfl

theorem getElem?_placements (r : LabelRegistry α) (cs : List (Caption α)) (j : Nat) :
    (r.placements cs)[j]? = cs[j]?.map (r.placeAll (cs.take j)).placement := by
  induction cs generalizing r j with
  | nil => rfl
  | cons c cs ih =>
      cases j with
      | zero => rfl
      | succ j => exact ih (r.placing c) j

/-- What is placed at a candidate collides with nothing that was placed earlier. -/
theorem collides_placements_eq_false {i : Nat} {earlier later : Placement α} (hij : i < j)
    (hearlier : (r.placements cs)[i]? = some earlier) (hlater : (r.placements cs)[j]? = some later)
    (hcandidate : later.atCandidate = true) :
    (r.boxOf earlier.placed).collides (r.boxOf later.placed) = false := by
  obtain ⟨hi, rfl⟩ := List.getElem?_eq_some_iff.mp hearlier
  obtain ⟨hj, rfl⟩ := List.getElem?_eq_some_iff.mp hlater
  rw [Box.collides_comm]
  exact List.pairwise_iff_getElem.mp (pairwise_placements r cs) i j hi hj hij hcandidate

/-- **First fit over any run.**  Each call adds one box, that of the spot which it returns, and
leaves the others as they were.  The spot is the first of the 25 candidates where the box collides
with none of those before it, and the fallback only if it collides with one at each of them.  So of
two boxes that collide, the later one was placed at the fallback. -/
theorem placeAll_firstFit (padding step : α) (cs : List (Caption α)) :
    let start := empty padding step
    (∀ j c, cs[j]? = some c →
      let r := start.placeAll (cs.take j)
      let spot := (r.place c.x c.y c.text c.fontSize).1
      start.placeAll (cs.take (j + 1)) = { r with boxes := r.boxes ++ [r.boxAt c spot] } ∧
        (r.candidates c.x c.y).length = 25 ∧ r.FirstFit c spot) ∧
      (start.placeAll cs).boxes.length = cs.length ∧
      ∀ i j a b, i < j → (start.placeAll cs).boxes[i]? = some a →
        (start.placeAll cs).boxes[j]? = some b → a.collides b = true →
        ∃ c, cs[j]? = some c ∧ (start.placeAll (cs.take j)).Crowded c ∧
          ((start.placeAll (cs.take j)).place c.x c.y c.text c.fontSize).1 =
            (start.placeAll (cs.take j)).farAbove c.x c.y c.fontSize := by
  intro start
  have hboxes : (start.placeAll cs).boxes =
      (start.placements cs).map fun q => start.boxOf q.placed := boxes_placeAll start cs
  refine ⟨?step, ?length, ?apart⟩
  case step =>
    intro j c hj
    exact ⟨placeAll_take_succ start hj, length_candidates _ _ _, firstFit_place _ c⟩
  case length =>
    rw [hboxes, List.length_map, ← List.length_map Placement.asked, map_asked_placements]
  case apart =>
    intro i j a b hij hi hj hcollides
    rw [hboxes, List.getElem?_map] at hi hj
    obtain ⟨earlier, hearlier, rfl⟩ := Option.map_eq_some_iff.mp hi
    obtain ⟨later, hlater, rfl⟩ := Option.map_eq_some_iff.mp hj
    have hfallback : later.atCandidate ≠ true := by
      intro hcandidate
      rw [collides_placements_eq_false hij hearlier hlater hcandidate] at hcollides
      cases hcollides
    rw [getElem?_placements] at hlater
    obtain ⟨c, hc, rfl⟩ := Option.map_eq_some_iff.mp hlater
    have hcrowded := crowded_of_not_atCandidate (Bool.eq_false_iff.mpr hfallback)
    exact ⟨c, hc, hcrowded, (firstFit_place _ c).eq_farAbove hcrowded⟩

end LabelRegistry

end Tromp
