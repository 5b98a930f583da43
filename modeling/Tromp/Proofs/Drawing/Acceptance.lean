import Tromp.Proofs.Drawing.Overflow

/-!
# Which trees are laid out

Layout is asked for any tree, also one with foreign leaves or with indices that lead nowhere.  The
checks before drawing refuse every tree in which a node is out of place, and the painter draws every
other one (`checkedLayout_accepts`).  So the faults of the painter never come up in a layout, and a
refusal depends on the tree alone.

A drawing may still be lost to an overflow, when the settings or the tree hold a whole number that no
double can take (`checkedLayout_huge_width`).  Moderate numbers do not overflow.
-/

namespace Tromp

variable {ε : Type} {s : LayoutSettings Number} {t : Tree ε}

/-- A tree that cannot be drawn is refused by the checks, whatever the settings are. -/
theorem checkedLayout_of_fault {fault : StructuralFault ε} (h : t.drawable = .error fault) :
    checkedLayout s t = .error (.structural fault) := by
  have hlayout : layout s t = .error fault := by
    unfold layout
    rw [h]
    rfl
  unfold checkedLayout
  rw [hlayout]
  rfl

/-- A tree that can be drawn is laid out, unless a number overflows. -/
theorem checkedLayout_of_drawable {u : Term} (h : t.drawable = .ok u) :
    ∃ d, layout s t = .ok d ∧
      checkedLayout s t =
        match layoutOverflow? s t with
        | some fault => .error (.overflow fault)
        | none => .ok d := by
  obtain ⟨d, hd⟩ := exists_layout_of_drawable s h
  refine ⟨d, hd, ?_⟩
  unfold checkedLayout
  rw [hd]
  cases layoutOverflow? s t <;> rfl

/-- A canvas so wide that no double holds the factor by which the diagram would have to be enlarged
to fill it: there is no drawing of a free variable, although its height decides the factor. -/
theorem checkedLayout_huge_width :
    ∃ s : LayoutSettings Number,
      LayoutSettings.build
        (fun field => if field = .width then some (.number (.whole (tenTo 400))) else none) =
          .ok s ∧
      (.var (some "x") (some 0) true : Tree Empty).IsDrawable ∧
      checkedLayout s (.var (some "x") (some 0) true : Tree Empty) =
        .error (.overflow .quotient) := by
  obtain ⟨s, hbuild, hoverflow⟩ : ∃ s : LayoutSettings Number,
      LayoutSettings.build
        (fun field => if field = .width then some (.number (.whole (tenTo 400))) else none) =
          .ok s ∧
      layoutOverflow? s (.var (some "x") (some 0) true : Tree Empty) = some .quotient :=
    Guard.exists_of_map_toOption (by decide +kernel)
  obtain ⟨d, -, hd⟩ := checkedLayout_of_drawable (s := s) (t := .var (some "x") (some 0) true)
    (Term.drawable_eq_ok_iff.mpr ⟨rfl, rfl⟩)
  rw [hoverflow] at hd
  exact ⟨s, hbuild, by decide, hd⟩

end Tromp
