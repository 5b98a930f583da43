import Tromp.Drawing.Primitive
import Tromp.Drawing.Labels

/-!
# Placing captions

A *caption* is what a label takes of the canvas: a text in a font size, where its baseline starts.
Placing a caption looks for a free candidate around its anchor, and registers one box.  A
*placement* records what was asked for and where it went, and `LabelRegistry.placements` are those
of a whole list of captions, placed one after another.

The registry grows by one box for each placement (`LabelRegistry.boxes_placeAll`), and a caption
that is placed at a candidate collides with nothing that was registered before it.  **Two boxes can
collide only if the later caption found no free candidate** (`LabelRegistry.pairwise_placements`).
-/

namespace Tromp

/-- A text in a font size whose baseline starts at a point. -/
structure Caption (α : Type) where
  x : α
  y : α
  text : String
  fontSize : α
deriving DecidableEq, Repr

/-- A label without its colour. -/
def Label.caption {α : Type} (l : Label α) : Caption α := ⟨l.x, l.y, l.text, l.fontSize⟩

/-- A caption that has been placed. -/
structure Placement (α : Type) where
  /-- The caption at its anchor. -/
  asked : Caption α
  /-- The caption where it was placed. -/
  placed : Caption α
  /-- Whether it was placed at one of its candidates, and not far above them. -/
  atCandidate : Bool
deriving DecidableEq, Repr

namespace LabelRegistry

variable {α : Type} [Scalar α]

/-- The box of a caption. -/
def boxOf (r : LabelRegistry α) (c : Caption α) : Box α := r.box c.x c.y c.text c.fontSize

/-- Boxes depend on the space around labels only. -/
theorem boxOf_congr {r r' : LabelRegistry α} (h : r.padding = r'.padding) (c : Caption α) :
    r.boxOf c = r'.boxOf c := by
  rw [boxOf, boxOf, box, box, h]

/-- The first candidate of a caption at which it collides with nothing, if there is one. -/
def freeCandidate? (r : LabelRegistry α) (c : Caption α) : Option (α × α) :=
  (r.candidates c.x c.y).find? fun spot => r.isFree (r.box spot.1 spot.2 c.text c.fontSize)

/-- How a caption is placed. -/
def placement (r : LabelRegistry α) (c : Caption α) : Placement α :=
  let spot := r.position c.x c.y c.text c.fontSize
  { asked := c
    placed := { c with x := spot.1, y := spot.2 }
    atCandidate := (r.freeCandidate? c).isSome }

/-- The registry after a caption is placed. -/
def placing (r : LabelRegistry α) (c : Caption α) : LabelRegistry α :=
  (r.place c.x c.y c.text c.fontSize).2

/-- How captions are placed one after another. -/
def placements : LabelRegistry α → List (Caption α) → List (Placement α)
  | _, [] => []
  | r, c :: cs => r.placement c :: placements (r.placing c) cs

/-- The registry after captions are placed one after another. -/
def placeAll (r : LabelRegistry α) (cs : List (Caption α)) : LabelRegistry α := cs.foldl placing r

theorem placeAll_append (r : LabelRegistry α) (cs ds : List (Caption α)) :
    r.placeAll (cs ++ ds) = (r.placeAll cs).placeAll ds := List.foldl_append

theorem placements_append (r : LabelRegistry α) (cs ds : List (Caption α)) :
    r.placements (cs ++ ds) = r.placements cs ++ (r.placeAll cs).placements ds := by
  induction cs generalizing r with
  | nil => rfl
  | cons c cs ih => exact congrArg (r.placement c :: ·) (ih (r.placing c))

theorem padding_placeAll (r : LabelRegistry α) (cs : List (Caption α)) :
    (r.placeAll cs).padding = r.padding := by
  induction cs generalizing r with
  | nil => rfl
  | cons c cs ih => exact ih (r.placing c)

/-- **One box is registered for each caption**, that of the place where it went. -/
theorem boxes_placeAll (r : LabelRegistry α) (cs : List (Caption α)) :
    (r.placeAll cs).boxes = r.boxes ++ (r.placements cs).map fun q => r.boxOf q.placed := by
  induction cs generalizing r with
  | nil => exact (List.append_nil _).symm
  | cons c cs ih =>
      have hrest : ((r.placing c).placeAll cs).boxes =
          (r.boxes ++ [r.boxOf (r.placement c).placed]) ++
            ((r.placing c).placements cs).map fun q => r.boxOf q.placed := ih (r.placing c)
      rw [List.append_assoc] at hrest
      exact hrest

theorem map_asked_placements (r : LabelRegistry α) (cs : List (Caption α)) :
    (r.placements cs).map Placement.asked = cs := by
  induction cs generalizing r with
  | nil => rfl
  | cons c cs ih => exact congrArg (c :: ·) (ih (r.placing c))

/-- Placing a caption moves it, and leaves its text in its font. -/
theorem fontSize_placed {r : LabelRegistry α} {cs : List (Caption α)} {q : Placement α}
    (hq : q ∈ r.placements cs) :
    q.placed.text = q.asked.text ∧ q.placed.fontSize = q.asked.fontSize := by
  induction cs generalizing r with
  | nil => cases hq
  | cons c cs ih =>
      rcases List.mem_cons.mp hq with rfl | hq
      · exact ⟨rfl, rfl⟩
      · exact ih hq

/-- **A placement is a first fit.**  A caption goes to the first of its candidates where it collides
with nothing, and far above its anchor only if it collides with something at all of them. -/
theorem placement_cases (r : LabelRegistry α) (c : Caption α) :
    (∃ before spot after, r.candidates c.x c.y = before ++ spot :: after ∧
        r.placement c = ⟨c, ⟨spot.1, spot.2, c.text, c.fontSize⟩, true⟩ ∧
        r.isFree (r.box spot.1 spot.2 c.text c.fontSize) = true ∧
        ∀ other ∈ before, r.isFree (r.box other.1 other.2 c.text c.fontSize) = false) ∨
      (r.placement c = ⟨c, ⟨(r.farAbove c.x c.y c.fontSize).1, (r.farAbove c.x c.y c.fontSize).2,
          c.text, c.fontSize⟩, false⟩ ∧
        ∀ other ∈ r.candidates c.x c.y,
          r.isFree (r.box other.1 other.2 c.text c.fontSize) = false) := by
  have hposition : r.position c.x c.y c.text c.fontSize =
      (r.freeCandidate? c).getD (r.farAbove c.x c.y c.fontSize) := rfl
  cases hfound : r.freeCandidate? c with
  | none =>
      rw [hfound] at hposition
      have hnone := List.find?_eq_none.mp hfound
      refine .inr ⟨?_, fun other hother => Bool.eq_false_iff.mpr (hnone other hother)⟩
      rw [placement, hfound, hposition]
      rfl
  | some spot =>
      rw [hfound] at hposition
      obtain ⟨hfree, before, after, heq, hbefore⟩ := List.find?_eq_some_iff_append.mp hfound
      refine .inl ⟨before, spot, after, heq, ?_, hfree, fun other hother => ?_⟩
      · rw [placement, hfound, hposition]
        rfl
      · simpa using hbefore other hother

/-- A caption that is placed at a candidate collides with no box before it. -/
theorem isFree_placement {r : LabelRegistry α} {c : Caption α}
    (h : (r.placement c).atCandidate = true) :
    r.isFree (r.boxOf (r.placement c).placed) = true := by
  rcases r.placement_cases c with ⟨before, spot, after, -, heq, hfree, -⟩ | ⟨heq, -⟩
  · rw [heq]
    exact hfree
  · rw [heq] at h
    cases h

/-- A caption that is placed at a candidate collides with no box that was there before all
captions. -/
theorem collides_eq_false_of_mem_placements {r : LabelRegistry α} {cs : List (Caption α)}
    {q : Placement α} (hq : q ∈ r.placements cs) (h : q.atCandidate = true) {b : Box α}
    (hb : b ∈ r.boxes) : (r.boxOf q.placed).collides b = false := by
  induction cs generalizing r with
  | nil => cases hq
  | cons c cs ih =>
      rcases List.mem_cons.mp hq with rfl | hq
      · have hfree := isFree_placement h
        simp only [isFree, Bool.not_eq_true', List.any_eq_false] at hfree
        exact Bool.eq_false_iff.mpr (hfree b hb)
      · exact ih (r := r.placing c) hq (List.mem_append_left _ hb)

/-- **Two boxes can collide only if the later caption found no free candidate.** -/
theorem pairwise_placements (r : LabelRegistry α) (cs : List (Caption α)) :
    (r.placements cs).Pairwise fun earlier later => later.atCandidate = true →
      (r.boxOf later.placed).collides (r.boxOf earlier.placed) = false := by
  induction cs generalizing r with
  | nil => exact .nil
  | cons c cs ih =>
      refine .cons (fun later hlater hcandidate => ?_) (ih (r.placing c))
      exact collides_eq_false_of_mem_placements (r := r.placing c) hlater hcandidate
        (List.mem_append_right _ (List.mem_singleton_self _))

end LabelRegistry

end Tromp
