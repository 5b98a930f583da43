import Tromp.Proofs.Drawing.Coupling
import Tromp.Proofs.Drawing.Layout
import Tromp.Proofs.Drawing.Success
import Tromp.Proofs.Term.Annotations

/-!
# Literals and the numerals written by hand

An abstraction that stands for a literal carries the number as a tag; a numeral that was written by
hand carries none and is recognized by its shape.  The painter asks for both in different places,
but as long as every tag is true, and none is zero, it gets the same answers: the tag of a numeral
and its shape tell one number.  So nothing of a drawing changes when the tags are erased
(`layout_untag`), in every arithmetic and whatever the settings are.

Again this is a statement about two runs of the painter.  Here they are coupled as tightly as can
be: what they have used up, the labels they ask for and the primitives they draw are equal.
-/

namespace Tromp

namespace Term

/-- Whether every tag tells the number of a numeral other than zero. -/
def HasTrueTags : Term → Prop
  | .var .. => True
  | .lam name numeral body =>
    (∀ n, numeral = some n →
      1 ≤ n ∧ (Tree.churchValue? (.lam name numeral body)).map Int.ofNat = some n) ∧
    HasTrueTags body
  | .app f a => HasTrueTags f ∧ HasTrueTags a

/-- A true tag is the number of a numeral other than zero. -/
theorem exists_of_hasTrueTags {name : Option String} {n : Int} {body : Term}
    (h : HasTrueTags (.lam name (some n) body)) :
    ∃ k, n = ((k + 1 : Nat) : Int) ∧ Tree.churchValue? (.lam name (some n) body) = some (k + 1) := by
  obtain ⟨hpos, hvalue⟩ := h.1 n rfl
  obtain ⟨m, hm, hn⟩ := Option.map_eq_some_iff.mp hvalue
  have hn : (m : Int) = n := hn
  refine ⟨m - 1, by omega, ?_⟩
  have hsucc : m - 1 + 1 = m := by omega
  rw [hsucc]
  exact hm

/-- A tag does not change the number that a term is the numeral of. -/
theorem churchValue?_lam (name : Option String) (numeral : Option Int) (body : Term) :
    Tree.churchValue? (.lam name numeral body) = Tree.churchValue? (.lam name none body) := by
  cases body <;> rfl

end Term

namespace Painter

variable {α : Type} [Scalar α] {p : Painter α} {name : Option String} {numeral : Option Int}
  {body : Term}

/-- The number of a numeral does not depend on tags. -/
theorem positiveNumeral?_untag : positiveNumeral? name body.untag = positiveNumeral? name body := by
  have hvalue := Term.churchValue?_relabel id (fun _ => none) (.lam name none body)
  rw [positiveNumeral?, positiveNumeral?, body.untag_eq_relabel, ← hvalue]
  rfl

/-- A tagged abstraction has the number of its tag. -/
theorem positiveNumeral?_of_tag {k : Nat}
    (h : Tree.churchValue? (.lam name numeral body) = some (k + 1)) :
    positiveNumeral? name body = some (k + 1) := by
  rw [positiveNumeral?, ← Term.churchValue?_lam, h]
  rfl

/-- An abstraction is drawn as a numeral with its tag exactly when it is without. -/
theorem isNumeral_untag (h : Term.HasTrueTags (.lam name numeral body)) :
    (numeral.isSome || (positiveNumeral? name body).isSome) =
      ((none : Option Int).isSome || (positiveNumeral? name body.untag).isSome) := by
  rw [positiveNumeral?_untag]
  cases numeral with
  | none => rfl
  | some n =>
      obtain ⟨k, -, hvalue⟩ := Term.exists_of_hasTrueTags h
      rw [positiveNumeral?_of_tag hvalue]
      rfl

/-- An abstraction has one label, with its tag and without. -/
theorem abstractionText_untag (h : Term.HasTrueTags (.lam name numeral body)) :
    abstractionText name numeral body = abstractionText name none body.untag := by
  have hboolean : Tree.booleanValue? (.lam name none body.untag : Term) =
      Tree.booleanValue? (.lam name numeral body) := by
    rw [body.untag_eq_relabel, ← Term.booleanValue?_relabel id (fun _ => none) (.lam name numeral _)]
    rfl
  unfold abstractionText
  rw [hboolean, positiveNumeral?_untag]
  cases numeral with
  | none => rfl
  | some n =>
      obtain ⟨k, rfl, hvalue⟩ := Term.exists_of_hasTrueTags h
      rw [Term.booleanValue?_eq_none hvalue, positiveNumeral?_of_tag hvalue]
      rfl

theorem operator?_untag (f : Term) : operator? f.untag = operator? f := by
  cases f using Term.induction <;> rfl

/-- A term with true tags matches itself without tags. -/
theorem matching_untag {t : Term} (h : t.HasTrueTags) : Matching p p Eq Eq t t.untag := by
  induction t using Term.induction with
  | var name index free =>
      apply Matching.var
      intro i c c' hc
      rw [hc]
  | lam name numeral body ih =>
      refine Matching.lam (isNumeral_untag h) ?_ (ih h.2)
      rw [abstractionLabel, abstractionLabel, abstractionText_untag h]
  | app f a ihf iha =>
      refine Matching.app ?_ (ihf h.1) (iha h.2)
      intro row
      rw [operatorLabel?, operatorLabel?, operator?_untag]

omit [Scalar α] in
/-- Steps from one state that give one value are coupled by equality. -/
theorem coupled_self {β : Type} {x : Paint α Empty β} (h : x.Succeeds) :
    Paint.Coupled Eq Eq x x := by
  rintro st _ rfl
  obtain ⟨b, after, hrun⟩ := h st
  exact ⟨b, b, after, after, hrun, hrun, rfl, rfl⟩

/-- Whatever is asked for can be written. -/
theorem succeeds_write (site : Site α) (asked : Option (Label α)) :
    (p.write (ε := Empty) site asked).Succeeds := by
  apply succeeds_labelled
  cases asked with
  | none => exact Paint.succeeds_pure []
  | some wish => exact succeeds_label _ _ _ _ _

omit [Scalar α] in
/-- Sites are the same when all they tell is. -/
theorem SameSite.eq {site site' : Site α} (h : SameSite Eq site site') : site = site' := by
  obtain ⟨hx, hy, hbinders, hnumeral⟩ := h
  have hbinders : site.binders = site'.binders := by
    rwa [List.forall₂_eq_eq_eq] at hbinders
  cases site
  cases site'
  simp_all

/-- A painter draws what it draws: its runs from one state are equal. -/
theorem coupling_self (p : Painter α) : p.Coupling p Eq Eq Eq some where
  unit_eq := rfl
  lineWidth_eq := rfl
  binderOverhang_eq := rfl
  hideApplicationSymbols_eq := rfl
  freeColor := rfl
  numeralColor := rfl
  takeColor := coupled_self (Paint.succeeds_modifyGet _)
  write := by
    intro site site' hsite asked asked' hasked
    obtain rfl := hsite.eq
    obtain rfl := hasked
    intro st st' hst
    obtain ⟨ps, qs, after, after', hrun, hrun', hps, hafter⟩ :=
      coupled_self (p.succeeds_write site asked) st st' hst
    exact ⟨ps, qs, after, after', hrun, hrun', congrArg _ hps, hafter⟩
  view_line := by
    intro x1 y1 x2 y2 c c' width rounded hc
    rw [hc]
  view_dot := by
    intro x y r c c' hc
    rw [hc]
  view_translate := by
    intro q dx dy
    rfl

end Painter

variable {α : Type} [Scalar α]

/-- Tags do not count when a term is fitted to the canvas. -/
theorem LayoutSettings.scaleOf_untag (s : LayoutSettings α) (t : Term) :
    s.scaleOf t.untag = s.scaleOf t := by
  rw [scaleOf, scaleOf, t.untag_eq_relabel, Term.width_relabel, Term.height_relabel,
    Term.size_relabel]

/-- **A literal is the numeral written by hand.**  Where all tags are true a valid term has one
drawing with its tags and without: the same size, scale and padding, and the same lines, dots and
labels in the same order and colours. -/
theorem layout_untag (s : LayoutSettings α) {t : Term} (ht : t.isValid 0 = true)
    (htags : t.HasTrueTags) : ∃ d, layout s t = .ok d ∧ layout s t.untag = .ok d := by
  have hu : t.untag.isValid 0 = true := by
    rw [t.untag_eq_relabel, Term.isValid_relabel, ht]
  have hpainter : s.painter t.untag = s.painter t := by
    rw [LayoutSettings.painter, LayoutSettings.painter, s.scaleOf_untag]
  have hroot : Painter.SameSite (α := α) Eq .root .root := ⟨rfl, rfl, .nil, rfl⟩
  obtain ⟨drawn, drawn', after, after', hrun, hrun', halike, -⟩ :=
    (s.painter t).coupling_self.drawAt (Painter.matching_untag htags) hroot ht .alone
      (.start s) (.start s) rfl
  -- The painter leaves the sizes of a fragment that are fitted later at one.
  have hd : layout s t = .ok (drawn.fitted s t) := layout_eq_ok_iff.mpr
    ⟨ht, drawn, congrArg Prod.fst hrun, rfl⟩
  have he : layout s t.untag = .ok (drawn'.fitted s t.untag) := by
    refine layout_eq_ok_iff.mpr ⟨hu, drawn', ?_, rfl⟩
    rw [LayoutSettings.run, hpainter]
    exact congrArg Prod.fst hrun'
  have hprimitives : drawn.primitives = drawn'.primitives := by
    simpa [Painter.SameView] using halike.primitives
  have hfitted : drawn'.fitted s t.untag = drawn.fitted s t := by
    rw [Fragment.fitted, Fragment.fitted, hpainter, s.scaleOf_untag, halike.width_eq,
      halike.height_eq, halike.stem_eq, hprimitives]
  exact ⟨drawn.fitted s t, hd, he.trans (congrArg Except.ok hfitted)⟩

/-- The literal one under an abstraction, applied to it, with labels on. -/
theorem layout_untag_one :
    let t : Term := .lam (some "n") none (.app (Term.church 1) (.var (some "n") (some 0) false))
    t.isValid 0 = true ∧ t.HasTrueTags ∧
      ∃ s : LayoutSettings Rat, LayoutSettings.build (fun _ => none) = .ok s ∧
        ∃ d, layout { s with showLabels := true } t = .ok d ∧
          layout { s with showLabels := true } t.untag = .ok d := by
  have htags : Term.HasTrueTags
      (.lam (some "n") none (.app (Term.church 1) (.var (some "n") (some 0) false))) := by
    refine ⟨nofun, ⟨?_, nofun, ?_⟩, trivial⟩
    · intro n hn
      obtain rfl := Option.some.inj hn
      exact ⟨le_rfl, rfl⟩
    · exact ⟨trivial, trivial⟩
  obtain ⟨s, hs, -⟩ := LayoutSettings.exists_build
  exact ⟨rfl, htags, s, hs, layout_untag _ rfl htags⟩

end Tromp
