import Tromp.Proofs.Drawing.Layout
import Tromp.Proofs.Drawing.Segments

/-!
# Valid terms are drawn

A step of painting *succeeds* when it gives a value from every state.  The only steps that can fail
are those that look up the abstraction of a variable, and a variable with a valid index finds it: so
every term is drawn that is valid under as many abstractions as there are colours around it.
-/

namespace Tromp

/-- A step of painting gives a value from every state. -/
def Paint.Succeeds {α ε β : Type} (x : Paint α ε β) : Prop :=
  ∀ st, ∃ b st', x.run.run st = (.ok b, st')

namespace Paint

variable {α ε β γ : Type}

theorem succeeds_pure (a : β) : Succeeds (pure a : Paint α ε β) := fun st => ⟨a, st, rfl⟩

theorem succeeds_modifyGet (f : PaintState α → β × PaintState α) :
    Succeeds (modifyGet f : Paint α ε β) := fun st => ⟨(f st).1, (f st).2, rfl⟩

theorem Succeeds.bind {x : Paint α ε β} {f : β → Paint α ε γ} (hx : x.Succeeds)
    (hf : ∀ b, (f b).Succeeds) : (x >>= f).Succeeds := by
  intro st
  obtain ⟨b, after, hb⟩ := hx st
  obtain ⟨c, st', hc⟩ := hf b after
  exact ⟨c, st', (run_bind_of_ok hb f).trans hc⟩

theorem Succeeds.ite {c : Prop} [Decidable c] {x y : Paint α ε β} (hx : x.Succeeds)
    (hy : y.Succeeds) : (if c then x else y).Succeeds := by
  split
  · exact hx
  · exact hy

/-- After one of two steps comes what follows both of them. -/
theorem Succeeds.ite_bind {c : Prop} [Decidable c] {x y : Paint α ε β} {f : β → Paint α ε γ}
    (hx : x.Succeeds) (hy : y.Succeeds) (hf : ∀ b, (f b).Succeeds) :
    (if c then x >>= f else y >>= f).Succeeds := (hx.bind hf).ite (hy.bind hf)

end Paint

namespace Painter

open Paint

variable {α ε : Type} [Scalar α] {p : Painter α} {site : Site α}

omit [Scalar α] in
theorem succeeds_labelled {labels : Paint α ε (List (Primitive α))} (h : labels.Succeeds) :
    (p.labelled site labels).Succeeds := h.ite (succeeds_pure [])

theorem succeeds_label (x y fontSize : α) (text color : String) :
    (do let l ← label (ε := ε) site x y text color fontSize; return [l]).Succeeds :=
  ((succeeds_modifyGet _).bind fun _ => succeeds_pure _).bind fun _ => succeeds_pure _

omit [Scalar α] in
/-- A variable whose index is valid finds its colour. -/
theorem exists_variableColor {name : Option String} {index : Option Nat} {free : Bool}
    {binders : List String}
    (h : Term.isValid (binders.length : Int) (.var name index free) = true) :
    ∃ c, p.variableColor (ε := ε) name index free binders = .ok c := by
  cases index with
  | none => cases h
  | some i =>
      cases free with
      | true => exact ⟨(p.settings.freeColor, i), rfl⟩
      | false =>
          have hi : i < binders.length := by simpa [Term.isValid] using h
          refine ⟨(binders[i], i), ?_⟩
          simp [variableColor, hi]

theorem succeeds_drawVariable {name : Option String} {index : Option Nat} {free : Bool}
    (h : Term.isValid (site.binders.length : Int) (.var name index free) = true) :
    (p.drawVariable (ε := ε) name index free site).Succeeds := by
  obtain ⟨c, hc⟩ := p.exists_variableColor (ε := ε) h
  rw [drawVariable, hc]
  refine (succeeds_pure c).bind fun _ => ?_
  exact (succeeds_labelled (succeeds_label _ _ _ _ _)).bind fun _ => succeeds_pure _

theorem succeeds_drawAbstraction {name : Option String} {numeral : Option Int} {body : Tree ε}
    {drawBody : Site α → Paint α ε (Fragment α)}
    (h : ∀ own, own.binders.length = site.binders.length + 1 → (drawBody own).Succeeds) :
    (p.drawAbstraction name numeral body drawBody site).Succeeds := by
  refine Succeeds.ite_bind (succeeds_pure _) (succeeds_modifyGet _) fun color => ?_
  refine (h _ rfl).bind fun inner => ?_
  exact (succeeds_labelled (succeeds_label _ _ _ _ _)).bind fun _ => succeeds_pure _

omit [Scalar α] in
theorem succeeds_applicationColor (argument : Tree ε) (binders : List String) :
    (p.applicationColor argument binders).Succeeds := by
  unfold applicationColor
  split
  · split
    · exact succeeds_pure _
    · exact succeeds_modifyGet _
  · exact succeeds_modifyGet _

theorem succeeds_join {f a : Tree ε} {drawn : Fragment α} {argumentStem row : Nat} :
    (p.join f a drawn argumentStem row site).Succeeds := by
  refine (p.succeeds_applicationColor a site.binders).bind fun color => ?_
  refine (succeeds_labelled ?_).bind fun _ => succeeds_pure _
  split
  · exact succeeds_pure _
  · exact succeeds_label _ _ _ _ _

/-- **Valid terms are drawn**, from every state of the painter. -/
theorem succeeds_drawNested {t : Term} (h : t.isValid (site.binders.length : Int) = true) :
    (p.drawNested t site).Succeeds := by
  induction t using Term.induction generalizing site with
  | var name index free => exact succeeds_drawVariable h
  | lam name numeral body ih =>
      refine succeeds_drawAbstraction fun own hown => ih ?_
      rw [hown]
      exact h
  | app f a ihf iha =>
      obtain ⟨hf, ha⟩ := Bool.and_eq_true_iff.mp h
      refine (ihf hf).bind fun function => ?_
      have hargument :
          (p.drawNested a (site.right (Scalar.ofNat (2 * function.width) * p.unit))).Succeeds :=
        iha ha
      refine hargument.bind fun argument => ?_
      exact succeeds_join.bind fun _ => succeeds_pure _

theorem succeeds_inFrame {position : Position α} {draw : Site α → Paint α ε (Fragment α)}
    (h : ∀ own, own.binders = site.binders → (draw own).Succeeds) :
    (inFrame position site draw).Succeeds := by
  cases position with
  | alone => exact h site rfl
  | argument offset =>
      have hdraw : (draw (site.right offset)).Succeeds := h _ rfl
      exact hdraw.bind fun _ => succeeds_pure _

/-- **Trees that are valid terms are drawn in passes**, in every arithmetic. -/
theorem succeeds_drawAt_of_check {t : Tree ε} {u : Term} (hu : t.check = .ok u)
    (h : u.isValid (site.binders.length : Int) = true) (position : Position α) :
    (p.drawAt t position site).Succeeds := by
  induction t generalizing u site position with
  | foreign value => cases hu
  | var name index free =>
      obtain rfl : Tree.var name index free = u := Except.ok.inj hu
      refine succeeds_inFrame fun own hown => succeeds_drawVariable ?_
      rw [hown]
      exact h
  | lam name numeral body ih =>
      obtain ⟨v, hv, rfl⟩ := Tree.check_lam_eq_ok_iff.mp hu
      rw [drawAt, Tree.isForeign_of_check hv]
      refine succeeds_inFrame fun own hown => succeeds_drawAbstraction fun inner hinner => ?_
      refine ih hv ?_ _
      rw [hinner, hown]
      exact h
  | app f a ihf iha =>
      obtain ⟨v, w, hv, hw, rfl⟩ := Tree.check_app_eq_ok_iff.mp hu
      obtain ⟨hvalidf, hvalida⟩ := Bool.and_eq_true_iff.mp h
      rw [drawAt, Tree.isForeign_of_check hv, Tree.isForeign_of_check hw, Bool.or_self,
        Bool.and_false]
      have hfunction : (p.drawAt f .alone (site.right position.offset)).Succeeds := by
        refine ihf hv ?_ _
        exact hvalidf
      refine hfunction.bind fun function => (iha hw hvalida _).bind fun argument => ?_
      exact succeeds_join.bind fun _ => succeeds_pure _

/-- Valid terms are drawn in passes, in every arithmetic. -/
theorem succeeds_drawAt {t : Term} (h : t.isValid (site.binders.length : Int) = true)
    (position : Position α) : (p.drawAt t position site).Succeeds :=
  succeeds_drawAt_of_check t.check_eq_ok h position

/-- A valid term is drawn from every state of the painter, and the drawing shows it. -/
theorem exists_draw (p : Painter Rat) {t : Term} (site : Site Rat)
    (ht : t.isValid (site.binders.length : Int) = true) (st : PaintState Rat) :
    ∃ d, ((p.draw t site).run.run st).1 = .ok d ∧ p.Shows t site.binders d := by
  obtain ⟨d, st', hrun⟩ := succeeds_drawNested (p := p) ht st
  rw [draw, drawAt_alone, hrun]
  exact ⟨d, rfl, shows_of_yields ⟨st, st', hrun⟩⟩

end Painter

/-! ### Layout -/

/-- **Drawable trees are laid out**, in every arithmetic and whatever the settings are: nothing that
passes the checks before drawing is refused by the painter. -/
theorem exists_layout_of_drawable {α ε : Type} [Scalar α] (s : LayoutSettings α) {t : Tree ε}
    {u : Term} (h : t.drawable = .ok u) : ∃ d, layout s t = .ok d := by
  obtain ⟨hcheck, hvalid⟩ := Tree.drawable_eq_ok_iff.mp h
  have hdraw : ((s.painter u).drawAt t .alone .root).Succeeds := by
    refine Painter.succeeds_drawAt_of_check hcheck ?_ .alone
    exact hvalid
  obtain ⟨drawn, after, hrun⟩ := hdraw (.start s)
  exact ⟨_, Guard.bind_eq_ok.mpr ⟨u, h, Guard.bind_eq_ok.mpr ⟨drawn, congrArg Prod.fst hrun, rfl⟩⟩⟩

/-- Valid terms are laid out. -/
theorem exists_layout {α : Type} [Scalar α] (s : LayoutSettings α) {t : Term}
    (h : t.isValid 0 = true) : ∃ d, layout s t = .ok d :=
  exists_layout_of_drawable s (Term.drawable_eq_ok_iff.mpr ⟨h, rfl⟩)

/-- The settings that are built from nothing let the bars of abstractions hang over by half a
row. -/
theorem LayoutSettings.exists_build :
    ∃ s : LayoutSettings Rat, build (fun _ => none) = .ok s ∧ s.binderOverhang = 1 / 2 :=
  Guard.exists_of_map_toOption (by decide +kernel)

end Tromp
