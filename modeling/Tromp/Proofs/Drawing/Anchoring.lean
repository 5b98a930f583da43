import Mathlib.Tactic.Ring
import Tromp.Proofs.Drawing.Boxes
import Tromp.Proofs.Drawing.Nested
import Tromp.Proofs.Settings.Accepted
import Tromp.Svg.Picture

/-!
# Anchoring a drawing

A drawing is anchored on its canvas by its bounds alone.  In exact arithmetic nothing else about it
counts: neither the order of its primitives, since its bounds are the least box around all of them,
nor where its own frame lies.  The argument has three parts.

1.  The bounds of every kind of primitive move with it (`Primitive.bounds_translate`).
2.  Unions of boxes move with the boxes, so the bounds of a drawing move with it
    (`Fragment.bounds_translate`).
3.  Both ways to anchor a drawing take the low ends of its bounds back, and look otherwise at
    differences of ends only, which do not move.

So a drawing that is moved is moved back by its anchor (`anchored_translate`).
-/

namespace Tromp

/-! ### Boxes that move -/

/-- The interval moved by a distance. -/
def Interval.translate (d : Rat) : Interval Rat → Interval Rat
  | .empty => .empty
  | .between a b => .between (a + d) (b + d)

/-- The box moved by a vector. -/
def Box.translate (dx dy : Rat) (b : Box Rat) : Box Rat := ⟨b.x.translate dx, b.y.translate dy⟩

theorem Interval.translate_union (d : Rat) (i j : Interval Rat) :
    (i.union j).translate d = (i.translate d).union (j.translate d) := by
  cases i with
  | empty => rfl
  | between a b =>
      cases j with
      | empty => rfl
      | between c e => simp [union, translate, min_add_add_right, max_add_add_right]

theorem Box.translate_union (dx dy : Rat) (a b : Box Rat) :
    (a.union b).translate dx dy = (a.translate dx dy).union (b.translate dx dy) := by
  simp only [union, translate, Interval.translate_union]

/-- The bounds of a primitive move with it. -/
theorem Primitive.bounds_translate (dx dy : Rat) (q : Primitive Rat) :
    (q.translate dx dy).bounds = q.bounds.translate dx dy := by
  cases q with
  | line s =>
      simp [translate, bounds, Box.translate, Interval.spanning, Interval.translate,
        min_add_add_right, max_add_add_right]
  | label l =>
      simp only [translate, bounds, Box.translate, Interval.translate]
      congr 2 <;> ring
  | dot d =>
      simp only [translate, bounds, Box.translate, Interval.translate]
      congr 2 <;> ring

/-- A primitive has bounds in both directions. -/
theorem Primitive.exists_bounds_eq (q : Primitive Rat) :
    ∃ left right top bottom, q.bounds = ⟨.between left right, .between top bottom⟩ := by
  cases q <;> exact ⟨_, _, _, _, rfl⟩

namespace Fragment

variable {f g : Fragment Rat}

/-- **The bounds of a drawing move with it.** -/
theorem bounds_translate (f : Fragment Rat) (dx dy : Rat) :
    (f.translate dx dy).bounds = f.bounds.translate dx dy := by
  have hstep : ∀ (b : Box Rat) (q : Primitive Rat),
      (b.translate dx dy).union (q.translate dx dy).bounds =
        (b.union q.bounds).translate dx dy := by
    intro b q
    rw [Primitive.bounds_translate, Box.translate_union]
  -- The empty box, from which both unions start, does not move.
  calc (f.translate dx dy).bounds
      = f.primitives.foldl (fun b q => b.union (q.translate dx dy).bounds)
          (Box.empty.translate dx dy) := List.foldl_map
    _ = (f.primitives.foldl (fun b q => b.union q.bounds) Box.empty).translate dx dy :=
        List.foldl_hom (Box.translate dx dy) hstep

/-- The order of primitives does not count for the bounds. -/
theorem bounds_eq_of_perm (h : f.primitives.Perm g.primitives) : g.bounds = f.bounds := by
  have hf := f.isLUB_bounds
  simp only [h.mem_iff] at hf
  exact g.isLUB_bounds.unique hf

/-- A drawing with a primitive has bounds in both directions. -/
theorem exists_bounds_eq (h : f.primitives ≠ []) :
    ∃ left right top bottom, f.bounds = ⟨.between left right, .between top bottom⟩ := by
  obtain ⟨q, hq⟩ := List.exists_mem_of_ne_nil _ h
  obtain ⟨left, right, top, bottom, hbounds⟩ := q.exists_bounds_eq
  have hle := bounds_le hq
  rw [hbounds] at hle
  exact Box.exists_eq_of_le hle

end Fragment

/-! ### The canvas -/

/-- The drawing where it is anchored on a canvas. -/
def Fragment.anchored (f : Fragment Rat) (s : RenderSettings Rat) : Fragment Rat :=
  f.translate (s.offset f).1 (s.offset f).2

/-- A box where an anchor puts it: its low corner keeps a padding, or its centre is that of the
canvas. -/
def RenderSettings.IsAnchored (s : RenderSettings Rat) (padding left right top bottom : Rat) :
    Prop :=
  match s.anchor with
  | .topLeft => left = padding ∧ top = padding
  | .center => (left + right) / 2 = s.width / 2 ∧ (top + bottom) / 2 = s.height / 2

section Anchor

variable (s : RenderSettings Rat) {f : Fragment Rat} {left right top bottom : Rat}

/-- The anchor takes back what the bounds are moved by. -/
theorem RenderSettings.offset_translate
    (hbounds : f.bounds = ⟨.between left right, .between top bottom⟩) (a b : Rat) :
    s.offset (f.translate a b) = ((s.offset f).1 - a, (s.offset f).2 - b) := by
  have hmoved : (f.translate a b).bounds =
      ⟨.between (left + a) (right + a), .between (top + b) (bottom + b)⟩ := by
    rw [Fragment.bounds_translate, hbounds]
    rfl
  have hpadding : (f.translate a b).padding = f.padding := rfl
  unfold offset
  rw [hmoved, hbounds, hpadding]
  cases s.anchor with
  | topLeft => simp only [sub_sub]
  | center => simp only [add_sub_add_right_eq_sub, sub_sub]

/-- The bounds of a drawing are anchored with it. -/
theorem RenderSettings.isAnchored
    (hbounds : f.bounds = ⟨.between left right, .between top bottom⟩) :
    s.IsAnchored f.padding (left + (s.offset f).1) (right + (s.offset f).1)
      (top + (s.offset f).2) (bottom + (s.offset f).2) := by
  unfold IsAnchored offset
  rw [hbounds]
  cases s.anchor with
  | topLeft =>
      constructor
      · exact add_sub_cancel left f.padding
      · exact add_sub_cancel top f.padding
  | center =>
      simp only [Scalar.ofNat_rat, Nat.cast_ofNat]
      constructor <;> ring

end Anchor

/-- A drawing that is moved twice is moved by the sum. -/
theorem Fragment.translate_translate (f : Fragment Rat) (a b c d : Rat) :
    (f.translate a b).translate c d = f.translate (a + c) (b + d) := by
  simp [translate, Primitive.translate_translate]

/-- **A drawing is anchored wherever its frame lies.**  The bounds of a drawing with a primitive are
the least box around the bounds of all its primitives, whose order does not count.  What a drawing
is moved by is taken back by its anchor, so each of its points comes to stand where it did.  And the
bounds come to stand where the anchor puts them: with their centre in the centre of the canvas, or
with their low corner at the padding. -/
theorem anchored_translate (s : RenderSettings Rat) {f : Fragment Rat} (hf : f.primitives ≠ []) :
    IsLUB {b | ∃ q ∈ f.primitives, q.bounds = b} f.bounds ∧
      (∀ g : Fragment Rat, f.primitives.Perm g.primitives → g.bounds = f.bounds) ∧
      (∀ a b, s.offset (f.translate a b) = ((s.offset f).1 - a, (s.offset f).2 - b) ∧
        (f.translate a b).anchored s = f.anchored s) ∧
      ∃ left right top bottom,
        (f.anchored s).bounds = ⟨.between left right, .between top bottom⟩ ∧
          s.IsAnchored f.padding left right top bottom := by
  obtain ⟨left, right, top, bottom, hbounds⟩ := f.exists_bounds_eq hf
  have hoffset := s.offset_translate hbounds
  refine ⟨f.isLUB_bounds, fun g => Fragment.bounds_eq_of_perm, ?_, ?_⟩
  · intro a b
    refine ⟨hoffset a b, ?_⟩
    rw [Fragment.anchored, hoffset, Fragment.translate_translate, add_sub_cancel, add_sub_cancel]
    rfl
  · refine ⟨_, _, _, _, ?_, s.isAnchored hbounds⟩
    rw [Fragment.anchored, Fragment.bounds_translate, hbounds]
    rfl

/-- A label, a dot and a line, moved and anchored in the centre of the canvas of the settings that
are built from nothing, and in its corner. -/
theorem anchored_translate_mixed :
    let f : Fragment Rat :=
      { width := 1, height := 1, stem := 0, padding := 7
        primitives := [.label ⟨3, 20, "λx", "red", 14⟩, .dot ⟨-4, 5, 2, "blue"⟩,
          .line ⟨0, 8, 0, -9, "red", 1, false⟩] }
    f.primitives ≠ [] ∧
      ∃ s : RenderSettings Rat, RenderSettings.build (fun _ => none) = .ok s ∧
        (f.translate 100 (1 / 3)).anchored s = f.anchored s ∧
        (∃ left right top bottom,
          (f.anchored s).bounds = ⟨.between left right, .between top bottom⟩ ∧
            (left + right) / 2 = s.width / 2 ∧ (top + bottom) / 2 = s.height / 2) ∧
        ∃ left right top bottom, (f.anchored { s with anchor := .topLeft }).bounds =
          ⟨.between left right, .between top bottom⟩ ∧ left = 7 ∧ top = 7 := by
  intro f
  have hf : f.primitives ≠ [] := nofun
  have hbuild : ∃ s : RenderSettings Rat, RenderSettings.build (fun _ => none) = .ok s ∧
      s.anchor = .center := Guard.exists_of_map_toOption (by decide +kernel)
  obtain ⟨s, hs, hcenter⟩ := hbuild
  obtain ⟨-, -, hmoved, left, right, top, bottom, hbounds, hanchored⟩ := anchored_translate s hf
  rw [RenderSettings.IsAnchored, hcenter] at hanchored
  obtain ⟨-, -, -, hcorner⟩ := anchored_translate { s with anchor := .topLeft } hf
  exact ⟨hf, s, hs, (hmoved _ _).2, ⟨left, right, top, bottom, hbounds, hanchored⟩, hcorner⟩

end Tromp
