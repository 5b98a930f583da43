import Mathlib.Data.List.Forall2
import Tromp.Proofs.Drawing.Labelling
import Tromp.Proofs.Drawing.Nested
import Tromp.Proofs.Drawing.Run

/-!
# Two runs of the painter

What a drawing does *not* depend on is a statement about two runs.  Two steps of painting are
*coupled* by a relation on states and a relation on values when from related states both give a
value, the values are related, and so are the states that are left.  Coupled steps compose
(`Paint.Coupled.bind`), so two runs are compared step by step, whatever they have used up before.

`Painter.Coupling` collects what two painters have to share: the sizes they draw with, colours that
are related, palettes that give related colours from related states, labels that may be placed in
place of each other, and a *view* of primitives that forgets what may differ.  Each function of the
painter has one lemma, and `Painter.Coupling.drawAt` puts them together for the terms that two
painters draw alike: terms of one shape, with the same indices, with numerals at the same places,
and with labels that stand for each other.
-/

namespace Tromp

/-- Two steps of painting give related values from related states, and leave related states. -/
def Paint.Coupled {α ε β γ : Type} (S : PaintState α → PaintState α → Prop) (R : β → γ → Prop)
    (x : Paint α ε β) (y : Paint α ε γ) : Prop :=
  ∀ st st', S st st' → ∃ b c after after', x.run.run st = (.ok b, after) ∧
    y.run.run st' = (.ok c, after') ∧ R b c ∧ S after after'

namespace Paint

variable {α ε β β' γ γ' : Type} {S : PaintState α → PaintState α → Prop} {R : β → β' → Prop}
  {Q : γ → γ' → Prop}

theorem coupled_pure {b : β} {b' : β'} (h : R b b') :
    Coupled S R (pure b : Paint α ε β) (pure b') :=
  fun st st' hst => ⟨b, b', st, st', rfl, rfl, h, hst⟩

/-- **Coupled steps compose.** -/
theorem Coupled.bind {x : Paint α ε β} {y : Paint α ε β'} {f : β → Paint α ε γ}
    {g : β' → Paint α ε γ'} (hxy : Coupled S R x y)
    (hfg : ∀ b b', R b b' → Coupled S Q (f b) (g b')) : Coupled S Q (x >>= f) (y >>= g) := by
  intro st st' hst
  obtain ⟨b, b', after, after', hx, hy, hb, hafter⟩ := hxy st st' hst
  obtain ⟨c, c', last, last', hf, hg, hc, hlast⟩ := hfg b b' hb after after' hafter
  exact ⟨c, c', last, last', (run_bind_of_ok hx f).trans hf, (run_bind_of_ok hy g).trans hg, hc,
    hlast⟩

/-- After one of two steps, chosen on one condition in both runs, comes what follows both. -/
theorem Coupled.ite_bind {c c' : Prop} [Decidable c] [Decidable c'] {x y : Paint α ε β}
    {x' y' : Paint α ε β'} {f : β → Paint α ε γ} {g : β' → Paint α ε γ'} (hc : c ↔ c')
    (hx : Coupled S R x x') (hy : Coupled S R y y')
    (hfg : ∀ b b', R b b' → Coupled S Q (f b) (g b')) :
    Coupled S Q (if c then x >>= f else y >>= f) (if c' then x' >>= g else y' >>= g) := by
  by_cases h : c
  · rw [if_pos h, if_pos (hc.mp h)]
    exact hx.bind hfg
  · rw [if_neg h, if_neg fun h' => h (hc.mpr h')]
    exact hy.bind hfg

end Paint

/-- The abstraction that binds a tree, counted from the inside, if the tree is a bound variable. -/
def Tree.boundIndex? {ε : Type} : Tree ε → Option Nat
  | .var _ (some i) false => some i
  | _ => none

namespace Painter

variable {α : Type} [Scalar α] {p p' : Painter α} {S : PaintState α → PaintState α → Prop}
  {K : String → String → Prop} {L : Option (Label α) → Option (Label α) → Prop}
  {view : Primitive α → Option (Primitive α)} {site site' : Site α}

omit [Scalar α] in
/-- An application takes the colour of the abstraction that binds its argument, if there is one. -/
theorem applicationColor_eq {ε : Type} (a : Tree ε) (binders : List String) :
    p.applicationColor a binders =
      match a.boundIndex?.bind fun i => binders[i]? with
      | some c => pure c
      | none => p.takeColor := by
  cases a with
  | foreign value => rfl
  | lam => rfl
  | app => rfl
  | var name index free =>
      cases index with
      | none => rfl
      | some i =>
          cases free with
          | true => rfl
          | false => cases h : binders[i]? <;> simp [applicationColor, Tree.boundIndex?, h]

/-- Two lists of primitives look alike. -/
def SameView (view : Primitive α → Option (Primitive α)) (ps qs : List (Primitive α)) : Prop :=
  ps.filterMap view = qs.filterMap view

/-- Two drawings look alike: they have one size, and their primitives look alike. -/
structure Alike (view : Primitive α → Option (Primitive α)) (d e : Fragment α) : Prop where
  width_eq : e.width = d.width
  height_eq : e.height = d.height
  stem_eq : e.stem = d.stem
  primitives : SameView view d.primitives e.primitives

/-- Two sites are one place, under abstractions of related colours. -/
structure SameSite (K : String → String → Prop) (site site' : Site α) : Prop where
  x_eq : site'.x = site.x
  y_eq : site'.y = site.y
  binders : List.Forall₂ K site.binders site'.binders
  inNumeral_eq : site'.inNumeral = site.inNumeral

/-- What two painters have to share for coupled runs: `S` relates their states, `K` their colours
and `L` the labels that are asked for, and the view is all that is compared of a primitive. -/
structure Coupling (p p' : Painter α) (S : PaintState α → PaintState α → Prop)
    (K : String → String → Prop) (L : Option (Label α) → Option (Label α) → Prop)
    (view : Primitive α → Option (Primitive α)) : Prop where
  unit_eq : p'.unit = p.unit
  lineWidth_eq : p'.settings.lineWidth = p.settings.lineWidth
  binderOverhang_eq : p'.settings.binderOverhang = p.settings.binderOverhang
  hideApplicationSymbols_eq :
    p'.settings.hideApplicationSymbols = p.settings.hideApplicationSymbols
  freeColor : K p.settings.freeColor p'.settings.freeColor
  numeralColor : K p.settings.numeralColor p'.settings.numeralColor
  takeColor : Paint.Coupled (ε := Empty) S K p.takeColor p'.takeColor
  write : ∀ site site', SameSite K site site' → ∀ asked asked', L asked asked' →
    Paint.Coupled (ε := Empty) S (SameView view) (p.write site asked) (p'.write site' asked')
  view_line : ∀ x1 y1 x2 y2 {c c'} width rounded, K c c' →
    view (.line ⟨x1, y1, x2, y2, c, width, rounded⟩) =
      view (.line ⟨x1, y1, x2, y2, c', width, rounded⟩)
  view_dot : ∀ x y r {c c'}, K c c' → view (.dot ⟨x, y, r, c⟩) = view (.dot ⟨x, y, r, c'⟩)
  view_translate : ∀ q dx dy, view (q.translate dx dy) = (view q).map (Primitive.translate dx dy)

omit [Scalar α] in
theorem SameView.cons {q q' : Primitive α} {ps qs : List (Primitive α)} (h : view q = view q')
    (hrest : SameView view ps qs) : SameView view (q :: ps) (q' :: qs) := by
  rw [SameView, List.filterMap_cons, List.filterMap_cons, h, hrest]

omit [Scalar α] in
theorem SameView.append {ps qs ps' qs' : List (Primitive α)} (h : SameView view ps qs)
    (h' : SameView view ps' qs') : SameView view (ps ++ ps') (qs ++ qs') := by
  rw [SameView, List.filterMap_append, List.filterMap_append, h, h']

omit [Scalar α] in
theorem SameView.ite {ps qs ps' qs' : List (Primitive α)} (c : Prop) [Decidable c]
    (h : SameView view ps qs) (h' : SameView view ps' qs') :
    SameView view (if c then ps else ps') (if c then qs else qs') := by
  by_cases hc : c
  · simpa [hc] using h
  · simpa [hc] using h'

theorem SameSite.right (h : SameSite K site site') (dx : α) :
    SameSite K (site.right dx) (site'.right dx) :=
  { h with x_eq := congrArg (· + dx) h.x_eq }

namespace Coupling

theorem sameView_translate (hp : p.Coupling p' S K L view) {ps qs : List (Primitive α)}
    (h : SameView view ps qs) (dx dy : α) :
    SameView view (ps.map (Primitive.translate dx dy)) (qs.map (Primitive.translate dx dy)) := by
  have hmoved := Primitive.filterMap_translate fun q => hp.view_translate q dx dy
  rw [SameView, hmoved, hmoved, h]

theorem alike_translate (hp : p.Coupling p' S K L view) {d e : Fragment α} (h : Alike view d e)
    (dx dy : α) : Alike view (d.translate dx dy) (e.translate dx dy) :=
  ⟨h.width_eq, h.height_eq, h.stem_eq, hp.sameView_translate h.primitives dx dy⟩

/-- A drawing that is moved into the frame around it. -/
theorem inFrame (hp : p.Coupling p' S K L view) {draw draw' : Site α → Paint α Empty (Fragment α)}
    (position : Position α) (hsite : SameSite K site site')
    (h : ∀ own own', SameSite K own own' → own.binders = site.binders →
      Paint.Coupled S (Alike view) (draw own) (draw' own')) :
    Paint.Coupled S (Alike view) (Painter.inFrame position site draw)
      (Painter.inFrame position site' draw') := by
  cases position with
  | alone => exact h site site' hsite rfl
  | argument offset =>
      refine (h _ _ (hsite.right offset) rfl).bind fun d e hde => ?_
      exact Paint.coupled_pure (hp.alike_translate hde offset Scalar.zero)

/-- The colours of one variable, which has a valid index. -/
theorem variableColor (hp : p.Coupling p' S K L view) (hsite : SameSite K site site')
    {name : Option String} {index : Option Nat} {free : Bool}
    (hvalid : Term.isValid (site.binders.length : Int) (.var name index free) = true) :
    ∃ i c c', index = some i ∧ K c c' ∧
      p.variableColor (ε := Empty) name index free site.binders = .ok (c, i) ∧
      ∀ name', p'.variableColor (ε := Empty) name' index free site'.binders = .ok (c', i) := by
  cases index with
  | none => cases hvalid
  | some i =>
      cases free with
      | true => exact ⟨i, _, _, rfl, hp.freeColor, rfl, fun _ => rfl⟩
      | false =>
          have hi : i < site.binders.length := by simpa [Term.isValid] using hvalid
          have hi' : i < site'.binders.length := hsite.binders.length_eq ▸ hi
          have hcolor : K site.binders[i] site'.binders[i] := hsite.binders.get hi hi'
          refine ⟨i, site.binders[i], site'.binders[i], rfl, hcolor, ?_, ?_⟩
          · simp [Painter.variableColor, hi]
          · simp [Painter.variableColor, hi']

/-- **Variables.** -/
theorem drawVariable (hp : p.Coupling p' S K L view) (hsite : SameSite K site site')
    {name name' : Option String} {index : Option Nat} {free : Bool}
    (hvalid : Term.isValid (site.binders.length : Int) (.var name index free) = true)
    (hlabel : ∀ i c c', K c c' →
      L (some (p.variableLabel name i c)) (some (p'.variableLabel name' i c'))) :
    Paint.Coupled (ε := Empty) S (Alike view) (p.drawVariable name index free site)
      (p'.drawVariable name' index free site') := by
  obtain ⟨i, c, c', rfl, hcolor, hc, hc'⟩ := hp.variableColor hsite hvalid
  rw [Painter.drawVariable, Painter.drawVariable, hc, hc' name']
  refine Paint.Coupled.bind (R := fun b b' => b = (c, i) ∧ b' = (c', i))
    (Paint.coupled_pure ⟨rfl, rfl⟩) ?_
  rintro _ _ ⟨rfl, rfl⟩
  refine (hp.write _ _ hsite _ _ (hlabel i c c' hcolor)).bind fun labels labels' hl => ?_
  refine Paint.coupled_pure ?_
  have hline := hp.view_line p.unit Scalar.zero p.unit (((-(i + 1) : Int) : α) * p.unit)
    p.settings.lineWidth false hcolor
  rw [hp.unit_eq, hp.lineWidth_eq]
  exact ⟨rfl, rfl, rfl, .cons hline hl⟩

/-- **Abstractions**, which both stand for numerals or neither does. -/
theorem drawAbstraction (hp : p.Coupling p' S K L view) (hsite : SameSite K site site')
    {name name' : Option String} {numeral numeral' : Option Int} {body body' : Term}
    {drawBody drawBody' : Site α → Paint α Empty (Fragment α)}
    (hnumeral : (site.inNumeral || numeral.isSome || (positiveNumeral? name body).isSome) =
      (site'.inNumeral || numeral'.isSome || (positiveNumeral? name' body').isSome))
    (hlabel : L (some (p.abstractionLabel name numeral body))
      (some (p'.abstractionLabel name' numeral' body')))
    (hbody : ∀ own own', SameSite K own own' →
      own.binders.length = site.binders.length + 1 →
      Paint.Coupled S (Alike view) (drawBody own) (drawBody' own')) :
    Paint.Coupled S (Alike view) (p.drawAbstraction name numeral body drawBody site)
      (p'.drawAbstraction name' numeral' body' drawBody' site') := by
  refine Paint.Coupled.ite_bind (R := K) (by rw [hnumeral]) (Paint.coupled_pure hp.numeralColor)
    hp.takeColor fun c c' hc => ?_
  have hown : SameSite K
      { x := site.x, y := site.y + p.unit, binders := c :: site.binders,
        inNumeral := site.inNumeral || numeral.isSome || (positiveNumeral? name body).isSome }
      { x := site'.x, y := site'.y + p'.unit, binders := c' :: site'.binders,
        inNumeral :=
          site'.inNumeral || numeral'.isSome || (positiveNumeral? name' body').isSome } :=
    ⟨hsite.x_eq, by rw [hsite.y_eq, hp.unit_eq], .cons hc hsite.binders, hnumeral.symm⟩
  refine (hbody _ _ hown rfl).bind fun inner inner' hinner => ?_
  refine (hp.write _ _ hsite _ _ hlabel).bind fun labels labels' hl => Paint.coupled_pure ?_
  have hbar := hp.view_line (p.unit - p.settings.binderOverhang * p.unit) Scalar.zero
    (p.unit + Scalar.ofNat (2 * (inner.width - 1)) * p.unit + p.settings.binderOverhang * p.unit)
    Scalar.zero (p.settings.lineWidth * 1.2) true hc
  have hbelow := (hp.alike_translate hinner Scalar.zero p.unit).primitives
  rw [hp.unit_eq, hp.lineWidth_eq, hp.binderOverhang_eq, hinner.width_eq, hinner.height_eq,
    hinner.stem_eq]
  exact ⟨rfl, rfl, rfl, (SameView.cons hbar hl).append hbelow⟩

/-- The colours of two applications whose arguments are bound alike. -/
theorem applicationColor (hp : p.Coupling p' S K L view) (hsite : SameSite K site site')
    {a a' : Term} (hbound : a'.boundIndex? = a.boundIndex?) :
    Paint.Coupled (ε := Empty) S K (p.applicationColor a site.binders)
      (p'.applicationColor a' site'.binders) := by
  rw [applicationColor_eq, applicationColor_eq, hbound]
  cases a.boundIndex? with
  | none => exact hp.takeColor
  | some i =>
      by_cases hi : i < site.binders.length
      · have hi' : i < site'.binders.length := hsite.binders.length_eq ▸ hi
        have hcolor : K site.binders[i] site'.binders[i] := hsite.binders.get hi hi'
        simpa [hi, hi'] using Paint.coupled_pure hcolor
      · have hi' : ¬i < site'.binders.length := hsite.binders.length_eq ▸ hi
        simpa [hi, hi'] using hp.takeColor

theorem sameView_joint (hp : p.Coupling p' S K L view) {drawn drawn' : Fragment α}
    (hdrawn : Alike view drawn drawn') (argumentStem row : Nat) {c c' : String} (hc : K c c') :
    SameView view (p.joint drawn argumentStem row c) (p'.joint drawn' argumentStem row c') := by
  have hnone : SameView view ([] : List (Primitive α)) [] := rfl
  have hline := fun x1 y1 x2 y2 => hp.view_line x1 y1 x2 y2 p.settings.lineWidth false hc
  have hdot := fun x y => hp.view_dot x y (p.settings.lineWidth * 1.5) hc
  have hfiller := fun (x : α) (stem : Nat) => SameView.ite (stem < row)
    (.cons (hline x (Scalar.ofNat stem * p.unit) x (Scalar.ofNat row * p.unit)) hnone) hnone
  unfold joint
  rw [hp.unit_eq, hp.lineWidth_eq, hp.hideApplicationSymbols_eq, hdrawn.width_eq, hdrawn.stem_eq]
  refine ((hfiller _ _).append (hfiller _ _)).append (.cons (hline _ _ _ _) ?_)
  exact SameView.ite _ hnone (.cons (hdot _ _) hnone)

/-- **Joints** of two functions that look alike. -/
theorem join (hp : p.Coupling p' S K L view) (hsite : SameSite K site site')
    {f f' a a' : Term} {drawn drawn' : Fragment α} (hdrawn : Alike view drawn drawn')
    {argumentStem row : Nat} (hbound : a'.boundIndex? = a.boundIndex?)
    (hlabel : L (p.operatorLabel? f row) (p'.operatorLabel? f' row)) :
    Paint.Coupled (ε := Empty) S (SameView view) (p.join f a drawn argumentStem row site)
      (p'.join f' a' drawn' argumentStem row site') := by
  rw [join_eq_write, join_eq_write]
  refine (hp.applicationColor hsite hbound).bind fun c c' hc => ?_
  refine (hp.write _ _ hsite _ _ hlabel).bind fun labels labels' hl => Paint.coupled_pure ?_
  exact (hp.sameView_joint hdrawn argumentStem row hc).append hl

end Coupling

/-- Terms that two painters draw alike: they have one shape, the same indices, numerals at the same
places, and at each node labels that stand for each other. -/
inductive Matching (p p' : Painter α) (K : String → String → Prop)
    (L : Option (Label α) → Option (Label α) → Prop) : Term → Term → Prop where
  | var {name name' : Option String} {index : Option Nat} {free : Bool}
      (label : ∀ i c c', K c c' →
        L (some (p.variableLabel name i c)) (some (p'.variableLabel name' i c'))) :
      Matching p p' K L (.var name index free) (.var name' index free)
  | lam {name name' : Option String} {numeral numeral' : Option Int} {body body' : Term}
      (isNumeral : (numeral.isSome || (positiveNumeral? name body).isSome) =
        (numeral'.isSome || (positiveNumeral? name' body').isSome))
      (label : L (some (p.abstractionLabel name numeral body))
        (some (p'.abstractionLabel name' numeral' body')))
      (below : Matching p p' K L body body') :
      Matching p p' K L (.lam name numeral body) (.lam name' numeral' body')
  | app {f f' a a' : Term} (label : ∀ row, L (p.operatorLabel? f row) (p'.operatorLabel? f' row))
      (func : Matching p p' K L f f') (arg : Matching p p' K L a a') :
      Matching p p' K L (.app f a) (.app f' a')

theorem Matching.boundIndex?_eq {t u : Term} (h : Matching p p' K L t u) :
    u.boundIndex? = t.boundIndex? := by
  cases h with
  | @var name name' index free label =>
      cases index with
      | none => rfl
      | some i => cases free <;> rfl
  | lam | app => rfl

/-- **Coupled drawings.**  Matching terms look alike where two coupled painters draw them, from
related states, as long as the indices of the terms are valid. -/
theorem Coupling.drawAt (hp : p.Coupling p' S K L view) {t u : Term}
    (h : Matching p p' K L t u) (hsite : SameSite K site site')
    (hvalid : t.isValid (site.binders.length : Int) = true) (position : Position α) :
    Paint.Coupled S (Alike view) (p.drawAt t position site) (p'.drawAt u position site') := by
  induction h generalizing site site' position with
  | var label =>
      refine hp.inFrame position hsite fun own own' hown hbinders => ?_
      exact hp.drawVariable hown (by rwa [hbinders]) label
  | lam isNumeral label below ih =>
      rw [Painter.drawAt, Painter.drawAt, isForeign_term, isForeign_term]
      refine hp.inFrame position hsite fun own own' hown hbinders => ?_
      refine hp.drawAbstraction hown ?_ label fun inner inner' hinner hlength => ih hinner ?_ _
      · rw [Bool.or_assoc, Bool.or_assoc, isNumeral, hown.inNumeral_eq]
      · rw [hlength, hbinders]
        exact hvalid
  | app label func arg ihf iha =>
      obtain ⟨hf, ha⟩ := Bool.and_eq_true_iff.mp hvalid
      rw [Painter.drawAt, Painter.drawAt]
      simp only [isForeign_term, Bool.or_false, Bool.and_false, Bool.false_eq_true, if_false]
      have hown := hsite.right position.offset
      refine (ihf hown hf .alone).bind fun d e hde => ?_
      rw [hde.width_eq, hp.unit_eq]
      refine (iha hsite ha _).bind fun d' e' hde' => ?_
      rw [hde.height_eq, hde'.width_eq, hde'.height_eq, hde'.stem_eq]
      refine (hp.join hown hde arg.boundIndex?_eq (label _)).bind fun bars bars' hbars => ?_
      have hmoved := hp.sameView_translate hbars position.offset Scalar.zero
      have hfunction := (hp.alike_translate hde position.offset Scalar.zero).primitives
      exact Paint.coupled_pure
        ⟨rfl, rfl, rfl, (hmoved.append hfunction).append hde'.primitives⟩

end Painter

end Tromp
