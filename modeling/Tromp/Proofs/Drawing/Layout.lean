import Tromp.Proofs.Drawing.Drawable
import Tromp.Proofs.Drawing.Nested
import Tromp.Proofs.Settings.Accepted

/-!
# Layout is a run of the painter

A term is laid out when its indices are valid and the painter draws it, at the origin and with
nothing used up before, in rows of the size that is fitted to the canvas.  `layout_eq_ok_iff` says
so, for every arithmetic; the run itself is `LayoutSettings.run`, which also tells what is used up
after it.  In exact arithmetic it is a run of plain drawing (`exists_drawNested_of_layout`).
-/

namespace Tromp

variable {α : Type} [Scalar α]

/-- The painter of a term, with rows of the fitted size. -/
def LayoutSettings.painter (s : LayoutSettings α) (t : Term) : Painter α :=
  { settings := s, unit := s.unitSize * s.scaleOf t }

/-- What drawing a term gives, and what is used up after it. -/
def LayoutSettings.run (s : LayoutSettings α) (t : Term) :
    Except (StructuralFault Empty) (Fragment α) × PaintState α :=
  ((s.painter t).draw t .root).run.run (.start s)

/-- A drawing of a term with the sizes that were fitted to the canvas. -/
def Fragment.fitted (d : Fragment α) (s : LayoutSettings α) (t : Term) : Fragment α :=
  { d with unitSize := (s.painter t).unit, scale := s.scaleOf t,
           padding := s.padding * s.scaleOf t }

/-- **Layout is a run of the painter** on a term whose indices are valid. -/
theorem layout_eq_ok_iff {s : LayoutSettings α} {t : Term} {d : Fragment α} :
    layout s t = .ok d ↔
      t.isValid 0 = true ∧ ∃ drawn, (s.run t).1 = .ok drawn ∧ drawn.fitted s t = d := by
  constructor
  · intro h
    obtain ⟨term, hterm, h⟩ := Guard.bind_eq_ok.mp h
    obtain ⟨hvalid, rfl⟩ := Term.drawable_eq_ok_iff.mp hterm
    obtain ⟨drawn, hrun, hd⟩ := Guard.bind_eq_ok.mp h
    exact ⟨hvalid, drawn, hrun, Except.ok.inj hd⟩
  · rintro ⟨hvalid, drawn, hrun, rfl⟩
    have hterm := Term.drawable_eq_ok_iff.mpr ⟨hvalid, rfl⟩
    exact Guard.bind_eq_ok.mpr ⟨t, hterm, Guard.bind_eq_ok.mpr ⟨drawn, hrun, rfl⟩⟩

/-- A layout in exact arithmetic is drawn plainly. -/
theorem exists_drawNested_of_layout {s : LayoutSettings Rat} {t : Term} {d : Fragment Rat}
    (h : layout s t = .ok d) :
    ∃ drawn, ((s.painter t).drawNested t .root).run.run (.start s) = (.ok drawn, (s.run t).2) ∧
      drawn.fitted s t = d := by
  obtain ⟨-, drawn, hrun, hd⟩ := layout_eq_ok_iff.mp h
  refine ⟨drawn, ?_, hd⟩
  rw [← (s.painter t).drawAt_alone]
  exact Prod.ext hrun rfl

end Tromp
