import Tromp.Proofs.Drawing.Coupling
import Tromp.Proofs.Drawing.Layout
import Tromp.Proofs.Drawing.Success
import Tromp.Proofs.Term.Annotations

/-!
# Marks do not depend on labels

The lines and dots of a diagram, and its size, come from the shape of the term, its indices and its
tags.  Neither names nor what the settings say about labels can be seen in them: two terms that
differ in names only, laid out with settings that differ in labels only, have one drawing as soon as
labels are left out (`layout_withoutLabels_eq`).  This holds in every arithmetic.

It is a statement about two runs of the painter (`Painter.Coupling`).  Placing labels uses up room
for labels and nothing else, so the two runs may have different room left, but they have always
taken the same number of colours.
-/

namespace Tromp

namespace Term

/-- The term without its names. -/
def unnamed : Term → Term
  | .var _ index free => .var none index free
  | .lam _ numeral body => .lam none numeral (unnamed body)
  | .app f a => .app (unnamed f) (unnamed a)

theorem unnamed_eq_relabel (t : Term) : t.unnamed = t.relabel (fun _ => none) id := by
  induction t using Term.induction with
  | var name index free => rfl
  | lam name numeral body ih => rw [unnamed, ih]; rfl
  | app f a ihf iha => rw [unnamed, ihf, iha]; rfl

theorem width_unnamed (t : Term) : t.unnamed.width = t.width := by
  rw [unnamed_eq_relabel, width_relabel]

theorem height_unnamed (t : Term) : t.unnamed.height = t.height := by
  rw [unnamed_eq_relabel, height_relabel]

theorem size_unnamed (t : Term) : t.unnamed.size = t.size := by
  rw [unnamed_eq_relabel, size_relabel]

theorem isValid_unnamed (t : Term) (depth : Int) :
    t.unnamed.isValid depth = t.isValid depth := by
  rw [unnamed_eq_relabel, isValid_relabel]

/-- A numeral is recognized without its names. -/
theorem churchValue?_unnamed (t : Term) : Tree.churchValue? t.unnamed = Tree.churchValue? t := by
  rw [unnamed_eq_relabel, churchValue?_relabel]

theorem positiveNumeral?_eq {t u : Term} (h : t.unnamed = u.unnamed) (name name' : Option String) :
    Painter.positiveNumeral? name t = Painter.positiveNumeral? name' u := by
  have hvalue : Tree.churchValue? (.lam name none t) = Tree.churchValue? (.lam name' none u) := by
    rw [← churchValue?_unnamed, ← churchValue?_unnamed (.lam name' none u), unnamed, unnamed, h]
  rw [Painter.positiveNumeral?, Painter.positiveNumeral?, hvalue]

end Term

variable {α : Type} [Scalar α]

/-- The settings without what they say about labels. -/
def LayoutSettings.withoutLabels (s : LayoutSettings α) : LayoutSettings α :=
  { s with showLabels := false, variableLabels := .name, labelPadding := Scalar.zero,
           labelStep := Scalar.zero, textColor := "", operatorColor := "" }

namespace Painter

variable {p p' : Painter α}

/-- Terms that are equal without their names match, whatever their labels are. -/
theorem matching_of_unnamed_eq {K : String → String → Prop} {t u : Term}
    (h : t.unnamed = u.unnamed) : Matching p p' K (fun _ _ => True) t u := by
  induction t using Term.induction generalizing u with
  | var name index free =>
      cases u using Term.induction with
      | var name' index' free' =>
          obtain ⟨-, rfl, rfl⟩ := Tree.var.inj h
          exact .var fun _ _ _ _ => trivial
      | lam => cases h
      | app => cases h
  | lam name numeral body ih =>
      cases u using Term.induction with
      | var => cases h
      | lam name' numeral' body' =>
          obtain ⟨-, rfl, hbody⟩ := Tree.lam.inj h
          exact .lam (by rw [Term.positiveNumeral?_eq hbody]) trivial (ih hbody)
      | app => cases h
  | app f a ihf iha =>
      cases u using Term.induction with
      | var => cases h
      | lam => cases h
      | app g b =>
          obtain ⟨hf, ha⟩ := Tree.app.inj h
          exact .app (fun _ => trivial) (ihf hf) (iha ha)

/-- Writing a label takes no colour and leaves no mark. -/
theorem run_write {ε : Type} (p : Painter α) (site : Site α) (asked : Option (Label α))
    (st : PaintState α) :
    ∃ ps after, (p.write (ε := ε) site asked).run.run st = (.ok ps, after) ∧
      ps.filterMap Primitive.mark? = [] ∧ after.colorIndex = st.colorIndex := by
  unfold write labelled
  split
  · cases asked with
    | none => exact ⟨[], st, rfl, rfl, rfl⟩
    | some wish => exact ⟨_, _, rfl, rfl, rfl⟩
  · exact ⟨[], st, rfl, rfl, rfl⟩

/-- Two painters whose settings differ in labels only draw the same marks, from states in which
they have taken the same number of colours. -/
theorem coupling_of_withoutLabels_eq (p p' : Painter α)
    (h : p.settings.withoutLabels = p'.settings.withoutLabels) (hunit : p'.unit = p.unit) :
    p.Coupling p' (fun st st' => st.colorIndex = st'.colorIndex) Eq (fun _ _ => True)
      Primitive.mark? where
  unit_eq := hunit
  lineWidth_eq := (congrArg LayoutSettings.lineWidth h).symm
  binderOverhang_eq := (congrArg LayoutSettings.binderOverhang h).symm
  hideApplicationSymbols_eq := (congrArg LayoutSettings.hideApplicationSymbols h).symm
  freeColor := (congrArg LayoutSettings.freeColor h :)
  numeralColor := (congrArg LayoutSettings.numeralColor h :)
  takeColor := by
    intro st st' hst
    have hcolors : p.settings.colors = p'.settings.colors := (congrArg LayoutSettings.colors h :)
    refine ⟨_, _, _, _, rfl, rfl, ?_, congrArg (· + 1) hst⟩
    simp only [hst, hcolors]
  write := by
    intro site site' _ asked asked' _ st st' hst
    obtain ⟨ps, after, hrun, hps, hafter⟩ := p.run_write (ε := Empty) site asked st
    obtain ⟨qs, after', hrun', hqs, hafter'⟩ := p'.run_write (ε := Empty) site' asked' st'
    exact ⟨ps, qs, after, after', hrun, hrun', hps.trans hqs.symm,
      hafter.trans (hst.trans hafter'.symm)⟩
  view_line := by
    rintro _ _ _ _ c _ _ _ rfl
    rfl
  view_dot := by
    rintro _ _ _ c _ rfl
    rfl
  view_translate := by
    intro q dx dy
    cases q <;> rfl

end Painter

/-- Terms that are equal without their names are fitted to the canvas alike. -/
theorem LayoutSettings.scaleOf_eq {s s' : LayoutSettings α}
    (hsettings : s.withoutLabels = s'.withoutLabels) {t u : Term}
    (hterms : t.unnamed = u.unnamed) : s.scaleOf t = s'.scaleOf u := by
  have hscale : ∀ (r : LayoutSettings α) (v : Term),
      r.scaleOf v = r.withoutLabels.scaleOf v.unnamed := by
    intro r v
    simp only [scaleOf, Term.width_unnamed, Term.height_unnamed, Term.size_unnamed]
    rfl
  rw [hscale s t, hscale s' u, hsettings, hterms]

end Tromp
