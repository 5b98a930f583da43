import Tromp.Proofs.Drawing.Extent
import Tromp.Proofs.Drawing.Run
import Tromp.Proofs.Drawing.Success
import Tromp.Proofs.Term.Occurrence

/-!
# Measuring agrees with drawing

The rows of a diagram are fitted to the canvas by the size of the term, which is measured beforehand
from the term alone; the painter finds out the size of what it draws on the way.  The two agree, in
every arithmetic and from every state of the painter (`Painter.hasSizeOf_of_yields`): a position
among the operands of an application moves a drawing and does not change its size.

The third dimension is the stem, the row where the leftmost line ends.  It is the last row of a term
without applications, and the row before the last, where the bar stands, of any other
(`Term.height_eq`).
-/

namespace Tromp

namespace Term

/-- Whether a term has no application: a variable below some abstractions, or below none. -/
def isThread : Term → Bool
  | .var .. => true
  | .lam _ _ body => isThread body
  | .app .. => false

/-- **Stems.**  The leftmost line goes down to the last row of a term without applications, and to
the row before the last of any other. -/
theorem height_eq (t : Term) : t.height = if t.isThread then t.stem else t.stem + 1 := by
  induction t using Term.induction with
  | var name index free => rfl
  | lam name numeral body ih =>
      rw [height, stem, isThread, ih]
      split <;> rfl
  | app f a ihf iha => rfl

end Term

/-- A drawing has the size of a term. -/
structure Fragment.HasSizeOf {α : Type} [Scalar α] (d : Fragment α) (u : Term) : Prop where
  width_eq : d.width = u.width
  height_eq : d.height = u.height
  stem_eq : d.stem = u.stem

namespace Painter

open Paint

variable {α ε : Type} [Scalar α] {p : Painter α} {site : Site α} {d : Fragment α}

omit [Scalar α] in
theorem not_yields_throw {β : Type} {fault : StructuralFault ε} {b : β} :
    ¬ Yields (throw fault : Paint α ε β) b := by
  rintro ⟨st, st', h⟩
  cases h

/-- A leaf or an abstraction has the same size in a frame of its own and in that of an
application. -/
theorem exists_of_yields_inFrame {position : Position α} {draw : Site α → Paint α ε (Fragment α)}
    (h : Yields (inFrame position site draw) d) :
    ∃ own inner, Yields (draw own) inner ∧ d.width = inner.width ∧ d.height = inner.height ∧
      d.stem = inner.stem := by
  cases position with
  | alone => exact ⟨site, d, h, rfl, rfl, rfl⟩
  | argument offset =>
      obtain ⟨inner, hinner, hd⟩ := yields_bind h
      rw [yields_pure hd]
      exact ⟨_, inner, hinner, rfl, rfl, rfl⟩

theorem size_of_yields_drawVariable {name : Option String} {index : Option Nat} {free : Bool}
    (h : Yields (p.drawVariable (ε := ε) name index free site) d) :
    d.width = 1 ∧ d.height = 0 ∧ d.stem = 0 := by
  obtain ⟨color, -, hrest⟩ := yields_bind h
  obtain ⟨labels, -, hd⟩ := yields_bind hrest
  rw [yields_pure hd]
  exact ⟨rfl, rfl, rfl⟩

theorem size_of_yields_drawAbstraction {name : Option String} {numeral : Option Int}
    {body : Tree ε} {drawBody : Site α → Paint α ε (Fragment α)}
    (h : Yields (p.drawAbstraction name numeral body drawBody site) d) :
    ∃ own inner, Yields (drawBody own) inner ∧ d.width = inner.width ∧
      d.height = inner.height + 1 ∧ d.stem = inner.stem + 1 := by
  obtain ⟨color, hrest⟩ := yields_ite_bind h
  obtain ⟨inner, hinner, hrest⟩ := yields_bind hrest
  obtain ⟨labels, -, hd⟩ := yields_bind hrest
  rw [yields_pure hd]
  exact ⟨_, inner, hinner, rfl, rfl, rfl⟩

/-- **What is drawn is a term, and has its size.** -/
theorem hasSizeOf_of_yields {t : Tree ε} {position : Position α}
    (h : Yields (p.drawAt t position site) d) : ∃ u, t.check = .ok u ∧ d.HasSizeOf u := by
  induction t generalizing position site d with
  | foreign value => exact absurd h not_yields_throw
  | var name index free =>
      obtain ⟨own, inner, hinner, hwidth, hheight, hstem⟩ := exists_of_yields_inFrame h
      obtain ⟨hw, hh, hs⟩ := size_of_yields_drawVariable hinner
      exact ⟨_, rfl, hwidth.trans hw, hheight.trans hh, hstem.trans hs⟩
  | lam name numeral body ih =>
      rw [drawAt] at h
      split at h
      next => exact absurd h not_yields_throw
      next =>
          obtain ⟨own, inner, hinner, hwidth, hheight, hstem⟩ := exists_of_yields_inFrame h
          obtain ⟨below, drawn, hdrawn, hw, hh, hs⟩ := size_of_yields_drawAbstraction hinner
          obtain ⟨u, hu, huw, huh, hus⟩ := ih hdrawn
          refine ⟨.lam name numeral u, ?_, ?_, ?_, ?_⟩
          · exact Tree.check_lam_eq_ok_iff.mpr ⟨u, hu, rfl⟩
          · rw [hwidth, hw, huw, Term.width]
          · rw [hheight, hh, huh, Term.height]
          · rw [hstem, hs, hus, Term.stem]
  | app f a ihf iha =>
      rw [drawAt] at h
      split at h
      next => exact absurd h not_yields_throw
      next =>
          obtain ⟨function, hfunction, hrest⟩ := yields_bind h
          obtain ⟨argument, hargument, hrest⟩ := yields_bind hrest
          obtain ⟨bars, -, hd⟩ := yields_bind hrest
          obtain ⟨u, hu, huw, huh, -⟩ := ihf hfunction
          obtain ⟨v, hv, hvw, hvh, -⟩ := iha hargument
          rw [yields_pure hd]
          refine ⟨.app u v, Tree.check_app_eq_ok_iff.mpr ⟨u, v, hu, hv, rfl⟩, ?_, ?_, ?_⟩
          · rw [Term.width, ← huw, ← hvw]
          · rw [Term.height, ← huh, ← hvh]
          · rw [Term.stem, ← huh, ← hvh]

/-- **Drawing agrees with measuring.**  Whatever the arithmetic, the settings, the site and the state
of the painter are, if a tree is drawn at all it is a term, and the drawing has the width and the
height that the term measures.  Its width is the number of the variables; its stem is its height if
the term has no application, and one row less otherwise.  So wherever a function is joined to its
argument, the lines of both end at the row of the bar or above. -/
theorem draw_measures {t : Tree ε} {st st' : PaintState α}
    (h : (p.draw t site).run.run st = (.ok d, st')) :
    ∃ u, t.check = .ok u ∧ d.width = u.width ∧ d.height = u.height ∧
      d.width = u.occurrences.length ∧
      (u.isThread = true → d.stem = d.height) ∧ (u.isThread = false → d.stem + 1 = d.height) ∧
      d.stem = u.stem ∧
      ∀ π (f a : Term), u.at? π = some (.app f a) →
        f.stem ≤ max f.height a.height ∧ a.stem ≤ max f.height a.height := by
  have hyields : Yields (p.drawAt t .alone site) d := ⟨st, st', h⟩
  obtain ⟨u, hu, hwidth, hheight, hstem⟩ := hasSizeOf_of_yields hyields
  have hrows := u.height_eq
  refine ⟨u, hu, hwidth, hheight, ?_, ?_, ?_, hstem, ?_⟩
  · rw [hwidth, Term.length_occurrences]
  · intro hthread
    rw [hstem, hheight, hrows, if_pos hthread]
  · intro hthread
    rw [hstem, hheight, hrows, if_neg (Bool.eq_false_iff.mp hthread)]
  · intro π f a _
    exact ⟨f.stem_le_height.trans (le_max_left _ _), a.stem_le_height.trans (le_max_right _ _)⟩

/-- Two applications below an abstraction, drawn inside a numeral and below one more abstraction. -/
theorem draw_measures_nested :
    let t : Term := .lam (some "f") none
      (.app (.lam (some "x") none (.var (some "x") (some 0) false))
        (.app (.var (some "f") (some 0) false) (.var (some "a") (some 1) false)))
    ∃ (p : Painter Rat) (st st' : PaintState Rat) (d : Fragment Rat),
      (p.draw t { x := 3, y := 1 / 2, binders := ["#8be9fd"], inNumeral := true }).run.run st =
        (.ok d, st') ∧
      d.width = 3 ∧ d.height = 3 ∧ d.stem = 2 := by
  intro t
  obtain ⟨s, -⟩ := LayoutSettings.exists_build
  have hvalid : t.isValid 1 = true := by decide
  have hdraw : Succeeds ((⟨s, 1⟩ : Painter Rat).drawAt t .alone
      { x := 3, y := 1 / 2, binders := ["#8be9fd"], inNumeral := true }) := by
    refine succeeds_drawAt ?_ .alone
    exact hvalid
  obtain ⟨d, st', hrun⟩ := hdraw (.start s)
  obtain ⟨u, hu, hwidth, hheight, -, -, -, hstem, -⟩ := draw_measures hrun
  obtain rfl : t = u := Except.ok.inj (t.check_eq_ok.symm.trans hu)
  exact ⟨_, _, st', d, hrun, hwidth, hheight, hstem⟩

end Painter

end Tromp
