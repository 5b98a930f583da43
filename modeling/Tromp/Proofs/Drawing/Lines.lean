import Tromp.Proofs.Drawing.Extent
import Tromp.Proofs.Drawing.Reach

/-!
# The line of a node

A drawing shows the strokes of its term, so its lines can be studied on the grid.  `Shows.lines`
gives the two ways to get there: every line of the drawing is that of a stroke, in the order of the
strokes, and the line of a node in a role is that of the one stroke of that node and role.
-/

namespace Tromp

/-- What is found in a list of strokes by its key is there. -/
theorem Stroke.exists_of_lookup_zip_map {β : Type} (g : Stroke → β) {l : List Stroke}
    {key : Address × StrokeRole} {b : β}
    (h : ((l.map Stroke.key).zip (l.map g)).lookup key = some b) :
    ∃ k ∈ l, k.key = key ∧ g k = b := by
  rw [List.zip_map'] at h
  obtain ⟨before, after, heq, -⟩ := List.lookup_eq_some_iff.mp h
  have hmem : (key, b) ∈ l.map fun k => (k.key, g k) := by
    rw [heq]
    exact List.mem_append_right _ List.mem_cons_self
  obtain ⟨k, hk, hpair⟩ := List.mem_map.mp hmem
  obtain ⟨hkey, hb⟩ := Prod.mk.inj hpair
  exact ⟨k, hk, hkey, hb⟩

namespace Painter

variable {p : Painter Rat} {t : Term} {binders : List String} {d : Fragment Rat}

/-- **Lines are strokes.**  With some colours for the nodes, the lines of a drawing are those of the
strokes of its term, and the line of a node in a role is that of its stroke. -/
theorem Shows.lines (h : p.Shows t binders d) :
    ∃ colors : Address → String, d.segments = t.strokes.map (fun k => p.segment (colors k.node) k) ∧
      ∀ π role line, d.lineOf? t π role = some line ↔
        ∃ k ∈ t.strokes, k.node = π ∧ k.role = role ∧ p.segment (colors π) k = line := by
  obtain ⟨colors, -, hsegments⟩ := h.segments_eq
  refine ⟨colors, hsegments, fun π role line => ?_⟩
  rw [Fragment.lineOf?, hsegments]
  constructor
  · intro hline
    obtain ⟨k, hk, hkey, rfl⟩ := Stroke.exists_of_lookup_zip_map _ hline
    obtain ⟨rfl, rfl⟩ := Prod.mk.inj hkey
    exact ⟨k, hk, rfl, rfl, rfl⟩
  · rintro ⟨k, hk, rfl, rfl, rfl⟩
    exact Stroke.lookup_zip_map (fun k => p.segment (colors k.node) k) t.nodup_strokes hk

theorem column_inj (hunit : 0 < p.unit) {i j : Nat} :
    (2 * (i : Rat) + 1) * p.unit = (2 * (j : Rat) + 1) * p.unit ↔ i = j := by
  rw [mul_left_inj' hunit.ne', add_left_inj, mul_right_inj' two_ne_zero, Nat.cast_inj]

theorem row_inj (hunit : 0 < p.unit) {i j : Int} : (i : Rat) * p.unit = j * p.unit ↔ i = j := by
  rw [mul_left_inj' hunit.ne', Int.cast_inj]

/-- The line of an upright stroke stands in the middle of its column. -/
theorem segment_x_of_not_isBar {k : Stroke} (hrole : k.role.isBar = false)
    (hcolumn : k.column2 = k.column1) (color : String) :
    (p.segment color k).x1 = (2 * k.column1 + 1) * p.unit ∧
      (p.segment color k).x2 = (2 * k.column1 + 1) * p.unit := by
  have hover : p.overhang k.role = 0 := by
    cases h : k.role <;> simp_all [overhang, StrokeRole.isBar]
  simp [segment, hover, hcolumn]

end Painter

end Tromp
