import Tromp.Drawing.Painter

/-!
# What painting yields

A step of painting can *yield* a value when it gives that value from some state of the painter.
Most facts about drawings hold whatever the painter has used up before, so they are facts about what
drawing can yield.  Each function of the painter has one lemma that says everything its success
establishes, in terms of what the steps inside it yield.

Where a fact depends on what was used up before, a step *ensures* it: from every state of a kind, and
leaving a state of that kind behind.

Labels and dots are no lines.  The lemmas speak of the lines of a drawing, in the order of drawing.
-/

namespace Tromp

/-- A step of painting gives a value from some state. -/
def Paint.Yields {α ε β : Type} (x : Paint α ε β) (b : β) : Prop :=
  ∃ st st' : PaintState α, x.run.run st = (.ok b, st')

namespace Paint

variable {α ε β γ : Type}

theorem yields_pure {a b : β} (h : Yields (pure a : Paint α ε β) b) : b = a := by
  obtain ⟨st, st', h⟩ := h
  cases h
  rfl

/-- After a step that gives a value comes what follows that value. -/
theorem run_bind_of_ok {x : Paint α ε β} {st after : PaintState α} {b : β}
    (h : x.run.run st = (.ok b, after)) (f : β → Paint α ε γ) :
    (x >>= f).run.run st = (f b).run.run after := by
  have hrun : (x >>= f).run.run st =
      StateT.run (ExceptT.bindCont f (x.run.run st).1) (x.run.run st).2 := rfl
  rw [hrun, h]
  rfl

/-- One step after another gives a value only if each of them does. -/
theorem exists_of_run_bind {x : Paint α ε β} {f : β → Paint α ε γ} {st st' : PaintState α} {c : γ}
    (h : (x >>= f).run.run st = (.ok c, st')) :
    ∃ b after, x.run.run st = (.ok b, after) ∧ (f b).run.run after = (.ok c, st') := by
  rcases hx : x.run.run st with ⟨fault | b, after⟩
  · have hrun : (x >>= f).run.run st =
        StateT.run (ExceptT.bindCont f (x.run.run st).1) (x.run.run st).2 := rfl
    rw [hrun, hx] at h
    cases h
  · rw [run_bind_of_ok hx] at h
    exact ⟨b, after, rfl, h⟩

/-- One step after another yields what the second yields after what the first yields. -/
theorem yields_bind {x : Paint α ε β} {f : β → Paint α ε γ} {c : γ} (h : Yields (x >>= f) c) :
    ∃ b, Yields x b ∧ Yields (f b) c := by
  obtain ⟨st, st', h⟩ := h
  obtain ⟨b, after, hx, hf⟩ := exists_of_run_bind h
  exact ⟨b, ⟨st, after, hx⟩, after, st', hf⟩

/-- A result that is looked up uses nothing up. -/
theorem of_run_ofExcept {x : Except (StructuralFault ε) β} {st st' : PaintState α} {b : β}
    (h : (MonadExcept.ofExcept x : Paint α ε β).run.run st = (.ok b, st')) :
    x = .ok b ∧ st' = st := by
  cases x with
  | ok a =>
      cases h
      exact ⟨rfl, rfl⟩
  | error fault => cases h

theorem yields_ofExcept {x : Except (StructuralFault ε) β} {b : β}
    (h : Yields (MonadExcept.ofExcept x : Paint α ε β) b) : x = .ok b := by
  obtain ⟨st, st', h⟩ := h
  exact (of_run_ofExcept h).1

/-- After one of two steps comes what follows both of them. -/
theorem exists_of_run_ite_bind {c : Prop} [Decidable c] {x y : Paint α ε β} {f : β → Paint α ε γ}
    {st st' : PaintState α} {r : γ}
    (h : (if c then x >>= f else y >>= f).run.run st = (.ok r, st')) :
    ∃ b after, (if c then x else y).run.run st = (.ok b, after) ∧
      (f b).run.run after = (.ok r, st') := by
  by_cases hc : c
  · rw [if_pos hc] at h ⊢
    exact exists_of_run_bind h
  · rw [if_neg hc] at h ⊢
    exact exists_of_run_bind h

theorem yields_bind_of_ite {c : Prop} [Decidable c] {x y : Paint α ε β} {f : β → Paint α ε γ}
    {r : γ} (h : Yields (if c then x >>= f else y >>= f) r) :
    ∃ b, Yields (if c then x else y) b ∧ Yields (f b) r := by
  obtain ⟨st, st', h⟩ := h
  obtain ⟨b, after, hx, hb⟩ := exists_of_run_ite_bind h
  exact ⟨b, ⟨st, after, hx⟩, after, st', hb⟩

theorem yields_ite_bind {c : Prop} [Decidable c] {x y : Paint α ε β} {f : β → Paint α ε γ} {r : γ}
    (h : Yields (if c then x >>= f else y >>= f) r) : ∃ b, Yields (f b) r := by
  obtain ⟨b, -, hb⟩ := yields_bind_of_ite h
  exact ⟨b, hb⟩

end Paint

/-! ### What painting ensures -/

/-- From every state of a kind a step of painting gives values of a kind only, and leaves a state
of that kind behind. -/
def Paint.Ensures {α ε β : Type} (I : PaintState α → Prop) (x : Paint α ε β) (Q : β → Prop) :
    Prop :=
  ∀ st b st', I st → x.run.run st = (.ok b, st') → I st' ∧ Q b

namespace Paint

variable {α ε β γ : Type} {I : PaintState α → Prop} {Q : γ → Prop} {R : β → Prop}
  {x y : Paint α ε β} {f : β → Paint α ε γ}

theorem ensures_pure {b : β} (h : R b) : Ensures I (pure b : Paint α ε β) R := by
  intro st c st' hst hrun
  cases hrun
  exact ⟨hst, h⟩

theorem ensures_throw {fault : StructuralFault ε} : Ensures I (throw fault : Paint α ε β) R := by
  intro st c st' _ hrun
  cases hrun

theorem ensures_ofExcept {r : Except (StructuralFault ε) β} (h : ∀ b, r = .ok b → R b) :
    Ensures I (MonadExcept.ofExcept r : Paint α ε β) R := by
  intro st c st' hst hrun
  obtain ⟨hr, rfl⟩ := of_run_ofExcept hrun
  exact ⟨hst, h c hr⟩

theorem ensures_modifyGet {f : PaintState α → β × PaintState α}
    (h : ∀ st, I st → I (f st).2 ∧ R (f st).1) : Ensures I (modifyGet f : Paint α ε β) R := by
  intro st c st' hst hrun
  cases hrun
  exact h st hst

theorem Ensures.bind (hx : Ensures I x R) (hf : ∀ b, R b → Ensures I (f b) Q) :
    Ensures I (x >>= f) Q := by
  intro st c st' hst hrun
  obtain ⟨b, after, hb, hc⟩ := exists_of_run_bind hrun
  obtain ⟨hafter, hR⟩ := hx st b after hst hb
  exact hf b hR after c st' hafter hc

theorem Ensures.ite {c : Prop} [Decidable c] (hx : Ensures I x R) (hy : Ensures I y R) :
    Ensures I (if c then x else y) R := by
  split
  · exact hx
  · exact hy

/-- After one of two steps comes what follows both of them. -/
theorem Ensures.ite_bind {c : Prop} [Decidable c] (hx : Ensures I x R) (hy : Ensures I y R)
    (hf : ∀ b, R b → Ensures I (f b) Q) : Ensures I (if c then x >>= f else y >>= f) Q :=
  (hx.bind hf).ite (hy.bind hf)

/-- What a step gives, it also yields. -/
theorem Ensures.imp {R' : β → Prop} (hx : Ensures I x R) (h : ∀ b, R b → Yields x b → R' b) :
    Ensures I x R' := by
  intro st b st' hst hrun
  obtain ⟨hst', hR⟩ := hx st b st' hst hrun
  exact ⟨hst', h b hR ⟨st, st', hrun⟩⟩

end Paint

/-! ### Labels are no lines -/

namespace Painter

open Paint

variable {α ε : Type} [Scalar α]

omit [Scalar α] in
/-- Where labels are drawn, they are all that is drawn. -/
theorem yields_labelled {p : Painter α} {site : Site α} {labels : Paint α ε (List (Primitive α))}
    (hlabels : ∀ ps, Yields labels ps → ps.filterMap Primitive.line? = []) {ps : List (Primitive α)}
    (h : Yields (p.labelled site labels) ps) : ps.filterMap Primitive.line? = [] := by
  unfold labelled at h
  split at h
  next => exact hlabels ps h
  next => rw [yields_pure h, List.filterMap_nil]

/-- A label is no line. -/
theorem yields_label {site : Site α} {x y fontSize : α} {text color : String}
    {ps : List (Primitive α)}
    (h : Yields (do let l ← label (ε := ε) site x y text color fontSize; return [l]) ps) :
    ps.filterMap Primitive.line? = [] := by
  obtain ⟨q, hq, hps⟩ := yields_bind h
  obtain ⟨_, -, hq⟩ := yields_bind hq
  rw [yields_pure hps, yields_pure hq]
  rfl

end Painter

end Tromp
