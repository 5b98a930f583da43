import Mathlib.Data.List.Rotate
import Tromp.Proofs.Drawing.Coupling
import Tromp.Proofs.Drawing.Literals
import Tromp.Proofs.Drawing.Marks
import Tromp.Proofs.Drawing.Success

/-!
# The palette and its counter

The painter takes the colours of its palette in turn and starts over at the end.  All that it keeps
of the colours it has taken is their number, so two things can be said of every drawing.

1.  A painter that has taken `k` colours draws like one that has taken none and whose palette is
    turned by `k`.  This is a statement about two coupled runs, in which one counter stays `k` ahead
    of the other (`Painter.coupling_rotated`).
2.  How many colours a drawing takes can be read off its term (`Painter.spends_drawAt`): one for
    each abstraction that is drawn as such, and one for each application whose argument is no
    variable that an abstraction around it binds.

Abstractions take their colours before their bodies and applications after both operands, so the
colours of a term are not those of its parts in a row.  The *number* of colours is, and
`Paint.Spends` is about numbers alone.
-/

namespace Tromp

/-- Whether a tree is a variable that one of so many abstractions around it binds. -/
def Tree.isBoundBelow {ε : Type} (depth : Nat) (t : Tree ε) : Bool :=
  t.boundIndex?.any fun i => decide (i < depth)

namespace Term

/-- Whether a term is drawn as a numeral: an abstraction that carries a tag, or that is the numeral
of a number other than zero. -/
def isNumeral : Term → Bool
  | .lam name numeral body =>
    numeral.isSome || decide (0 < (Tree.churchValue? (.lam name numeral body)).getD 0)
  | _ => false

/-- The number of abstractions of a term that are neither numerals nor inside one. -/
def plainAbstractions : Term → Nat
  | .var .. => 0
  | .lam name numeral body =>
    if isNumeral (.lam name numeral body) then 0 else plainAbstractions body + 1
  | .app f a => plainAbstractions f + plainAbstractions a

/-- The number of applications of a term that stands below so many abstractions whose argument is
not a variable bound by an abstraction around it. -/
def openApplications (depth : Nat) : Term → Nat
  | .var .. => 0
  | .lam _ _ body => openApplications (depth + 1) body
  | .app f a =>
    openApplications depth f + openApplications depth a + if a.isBoundBelow depth then 0 else 1

/-- The number of colours that drawing a term takes at a site. -/
def colorsTaken {α : Type} (t : Term) (site : Site α) : Nat :=
  (if site.inNumeral then 0 else t.plainAbstractions) + t.openApplications site.binders.length

/-- The painter recognizes numerals by the same two signs. -/
theorem isNumeral_lam (name : Option String) (numeral : Option Int) (body : Term) :
    isNumeral (.lam name numeral body) =
      (numeral.isSome || (Painter.positiveNumeral? name body).isSome) := by
  rw [isNumeral, Painter.positiveNumeral?, churchValue?_lam]
  cases Tree.churchValue? (.lam name none body) with
  | none => rfl
  | some n => cases n <;> rfl

/-- The colours of an abstraction are its own, unless it is a numeral or inside one, and those of
its body. -/
theorem colorsTaken_lam {α : Type} (name : Option String) (numeral : Option Int) (body : Term)
    (site : Site α) :
    colorsTaken (.lam name numeral body) site =
      (if site.inNumeral || isNumeral (.lam name numeral body) then 0 else 1) +
        ((if site.inNumeral || isNumeral (.lam name numeral body) then 0
          else body.plainAbstractions) + body.openApplications (site.binders.length + 1)) := by
  rw [colorsTaken, plainAbstractions, openApplications]
  cases site.inNumeral with
  | true => simp
  | false =>
      cases isNumeral (.lam name numeral body) with
      | true => simp
      | false => simp; omega

/-- The colours of an application are those of its operands, and its own unless its argument is
bound around it. -/
theorem colorsTaken_app {α : Type} (f a : Term) (site : Site α) :
    colorsTaken (.app f a) site =
      f.colorsTaken site + a.colorsTaken site +
        if a.isBoundBelow site.binders.length then 0 else 1 := by
  rw [colorsTaken, colorsTaken, colorsTaken, plainAbstractions, openApplications]
  cases site.inNumeral with
  | true => simp
  | false => simp; omega

end Term

/-! ### Turned palettes -/

/-- A colour further on in a palette is the colour at its place in the palette that is turned. -/
theorem getD_rotate (colors : List String) (i k : Nat) :
    (colors.rotate (k % colors.length)).getD
        (i % (colors.rotate (k % colors.length)).length) "" =
      colors.getD ((i + k) % colors.length) "" := by
  cases colors with
  | nil => rfl
  | cons c cs =>
      have hlt : i % (c :: cs).length < (c :: cs).length := Nat.mod_lt _ (Nat.succ_pos _)
      rw [List.rotate_mod, List.length_rotate, List.getD_eq_getElem?_getD,
        List.getD_eq_getElem?_getD, List.getElem?_rotate hlt, Nat.mod_add_mod]

namespace Painter

variable {α : Type} [Scalar α]

/-- The painter whose palette begins with the colour that comes after so many others. -/
def rotated (p : Painter α) (k : Nat) : Painter α :=
  { p with settings :=
      { p.settings with colors := p.settings.colors.rotate (k % p.settings.colors.length) } }

/-- The first state is the second one after so many more colours. -/
def Ahead (k : Nat) (st st' : PaintState α) : Prop :=
  st.colorIndex = st'.colorIndex + k ∧ st.registry = st'.registry

/-- **A painter whose counter is ahead** draws as one draws whose palette is turned. -/
theorem coupling_rotated (p : Painter α) (k : Nat) :
    p.Coupling (p.rotated k) (Ahead k) Eq Eq some where
  unit_eq := rfl
  lineWidth_eq := rfl
  binderOverhang_eq := rfl
  hideApplicationSymbols_eq := rfl
  freeColor := rfl
  numeralColor := rfl
  takeColor := by
    intro st st' hst
    refine ⟨_, _, _, _, rfl, rfl, ?_, ?_⟩
    · simp only [hst.1]
      exact (getD_rotate p.settings.colors st'.colorIndex k).symm
    · exact ⟨by simp only [hst.1, Nat.add_right_comm], hst.2⟩
  write := by
    intro site site' hsite asked asked' hasked st st' hst
    obtain rfl := hsite.eq
    obtain rfl := hasked
    unfold write labelled
    have hshow : (p.rotated k).settings.showLabels = p.settings.showLabels := rfl
    rw [hshow]
    split
    · cases asked with
      | none => exact ⟨[], [], st, st', rfl, rfl, rfl, hst⟩
      | some wish =>
          refine ⟨_, _, _, _, rfl, rfl, ?_, ?_⟩
          · simp only [hst.2]
            rfl
          · exact ⟨hst.1, by simp only [hst.2]⟩
    · exact ⟨[], [], st, st', rfl, rfl, rfl, hst⟩
  view_line := by
    intro x1 y1 x2 y2 c c' width rounded hc
    rw [hc]
  view_dot := by
    intro x y r c c' hc
    rw [hc]
  view_translate := by
    intro q dx dy
    rfl

/-- A term asks for the same labels whatever the palette is. -/
theorem matching_rotated (p : Painter α) (k : Nat) (t : Term) :
    Matching p (p.rotated k) Eq Eq t t := by
  induction t using Term.induction with
  | var name index free =>
      apply Matching.var
      intro i c c' hc
      rw [hc]
      rfl
  | lam name numeral body ih => exact Matching.lam rfl rfl ih
  | app f a ihf iha => exact Matching.app (fun _ => rfl) ihf iha

/-- The sizes of a fragment that are set only where it is fitted to its canvas are the ones it
begins with. -/
structure IsUnfitted (d : Fragment α) : Prop where
  unitSize_eq : d.unitSize = 1.0
  scale_eq : d.scale = 1.0
  padding_eq : d.padding = 0.0

theorem isUnfitted_of_yields_inFrame {ε : Type} {position : Position α} {site : Site α}
    {draw : Site α → Paint α ε (Fragment α)} {d : Fragment α}
    (hdraw : ∀ own d, Paint.Yields (draw own) d → IsUnfitted d)
    (h : Paint.Yields (inFrame position site draw) d) : IsUnfitted d := by
  cases position with
  | alone => exact hdraw site d h
  | argument offset =>
      obtain ⟨drawn, hdrawn, hd⟩ := Paint.yields_bind h
      have hunfitted := hdraw _ drawn hdrawn
      rw [Paint.yields_pure hd]
      exact ⟨hunfitted.unitSize_eq, hunfitted.scale_eq, hunfitted.padding_eq⟩

/-- The painter fits nothing. -/
theorem isUnfitted_of_yields {p : Painter α} {t : Term} {position : Position α} {site : Site α}
    {d : Fragment α} (h : Paint.Yields (p.drawAt t position site) d) : IsUnfitted d := by
  cases t with
  | foreign value => exact value.elim
  | var name index free =>
      rw [drawAt] at h
      apply isUnfitted_of_yields_inFrame _ h
      intro own d hd
      obtain ⟨found, -, hd⟩ := Paint.yields_bind hd
      obtain ⟨labels, -, hd⟩ := Paint.yields_bind hd
      rw [Paint.yields_pure hd]
      exact ⟨rfl, rfl, rfl⟩
  | lam name numeral body =>
      rw [drawAt, isForeign_term] at h
      apply isUnfitted_of_yields_inFrame _ h
      intro own d hd
      obtain ⟨color, hd⟩ := Paint.yields_ite_bind hd
      obtain ⟨inner, -, hd⟩ := Paint.yields_bind hd
      obtain ⟨labels, -, hd⟩ := Paint.yields_bind hd
      rw [Paint.yields_pure hd]
      exact ⟨rfl, rfl, rfl⟩
  | app f a =>
      rw [drawAt] at h
      simp only [isForeign_term, Bool.or_false, Bool.and_false, Bool.false_eq_true, if_false] at h
      obtain ⟨function, -, h⟩ := Paint.yields_bind h
      obtain ⟨argument, -, h⟩ := Paint.yields_bind h
      obtain ⟨bars, -, h⟩ := Paint.yields_bind h
      rw [Paint.yields_pure h]
      exact ⟨rfl, rfl, rfl⟩

/-- Drawings that look alike when nothing is forgotten of their primitives are one drawing, as long
as neither is fitted. -/
theorem Alike.eq_of_isUnfitted {d e : Fragment α} (h : Alike some d e) (hd : IsUnfitted d)
    (he : IsUnfitted e) : e = d := by
  obtain ⟨hwidth, hheight, hstem, hview⟩ := h
  obtain ⟨hunit, hscale, hpadding⟩ := hd
  obtain ⟨hunit', hscale', hpadding'⟩ := he
  have hprimitives : d.primitives = e.primitives := by
    simpa [SameView] using hview
  cases d
  cases e
  simp_all

end Painter

/-! ### Counting colours -/

/-- Whenever a step of painting gives a value, it has used up so many colours. -/
def Paint.Spends {α ε β : Type} (n : Nat) (x : Paint α ε β) : Prop :=
  ∀ st b st', x.run.run st = (.ok b, st') → st'.colorIndex = st.colorIndex + n

namespace Paint

variable {α ε β γ : Type} {m n : Nat} {x y : Paint α ε β} {f : β → Paint α ε γ}

theorem spends_pure (b : β) : Spends 0 (pure b : Paint α ε β) := by
  intro st c st' h
  cases h
  rfl

theorem spends_ofExcept (r : Except (StructuralFault ε) β) :
    Spends 0 (MonadExcept.ofExcept r : Paint α ε β) := by
  intro st c st' h
  obtain ⟨-, rfl⟩ := of_run_ofExcept h
  rfl

/-- One step after another takes the colours of both. -/
theorem Spends.bind (hx : Spends m x) (hf : ∀ b, Spends n (f b)) : Spends (m + n) (x >>= f) := by
  intro st c st' h
  obtain ⟨b, after, hb, hc⟩ := exists_of_run_bind h
  rw [hf b after c st' hc, hx st b after hb, Nat.add_assoc]

/-- What follows a step and takes no colour does not count. -/
theorem Spends.bind_free (hx : Spends n x) (hf : ∀ b, Spends 0 (f b)) : Spends n (x >>= f) :=
  hx.bind hf

/-- After one of two steps comes what follows both of them. -/
theorem Spends.ite_bind {c : Prop} [Decidable c] {k : Nat} (hx : Spends m x) (hy : Spends n y)
    (hf : ∀ b, Spends k (f b)) :
    Spends ((if c then m else n) + k) (if c then x >>= f else y >>= f) := by
  split
  · exact hx.bind hf
  · exact hy.bind hf

end Paint

namespace Painter

open Paint

variable {α ε : Type} [Scalar α] {p : Painter α} {site : Site α}

omit [Scalar α] in
theorem spends_takeColor : Spends 1 (p.takeColor (ε := ε)) := by
  intro st c st' h
  cases h
  rfl

/-- A label takes no colour. -/
theorem spends_write (asked : Option (Label α)) : Spends 0 (p.write (ε := ε) site asked) := by
  intro st ps st' h
  obtain ⟨qs, after, hrun, -, hindex⟩ := p.run_write (ε := ε) site asked st
  rw [hrun] at h
  cases h
  exact hindex

theorem spends_drawVariable (name : Option String) (index : Option Nat) (free : Bool) :
    Spends 0 (p.drawVariable (ε := ε) name index free site) := by
  refine (spends_ofExcept _).bind_free fun found => ?_
  obtain ⟨color, i⟩ := found
  exact (spends_write (some (p.variableLabel name i color))).bind_free fun _ => spends_pure _

/-- An abstraction takes a colour unless it is a numeral or inside one. -/
theorem spends_drawAbstraction {n : Nat} {name : Option String} {numeral : Option Int} {body : Term}
    {drawBody : Site α → Paint α Empty (Fragment α)}
    (h : ∀ own, own.inNumeral = (site.inNumeral || Term.isNumeral (.lam name numeral body)) →
      own.binders.length = site.binders.length + 1 → Spends n (drawBody own)) :
    Spends ((if site.inNumeral || Term.isNumeral (.lam name numeral body) then 0 else 1) + n)
      (p.drawAbstraction name numeral body drawBody site) := by
  rw [Term.isNumeral_lam, ← Bool.or_assoc] at h ⊢
  refine Spends.ite_bind (spends_pure _) spends_takeColor fun color => ?_
  refine (h _ rfl rfl).bind_free fun inner => ?_
  let label := p.abstractionLabel name numeral body
  exact (spends_write (some label)).bind_free fun _ => spends_pure _

omit [Scalar α] in
/-- An application takes a colour unless its argument is bound around it. -/
theorem spends_applicationColor (a : Tree ε) (binders : List String) :
    Spends (if a.isBoundBelow binders.length then 0 else 1) (p.applicationColor a binders) := by
  rw [applicationColor_eq, Tree.isBoundBelow]
  cases a.boundIndex? with
  | none => exact spends_takeColor
  | some i =>
      by_cases hi : i < binders.length
      · simpa [hi] using spends_pure (ε := ε) binders[i]
      · simpa [hi] using spends_takeColor (ε := ε)

theorem spends_join (f a : Tree ε) (drawn : Fragment α) (argumentStem row : Nat) :
    Spends (if a.isBoundBelow site.binders.length then 0 else 1)
      (p.join f a drawn argumentStem row site) := by
  rw [join_eq_write]
  refine (spends_applicationColor a site.binders).bind_free fun color => ?_
  exact (spends_write (p.operatorLabel? f row)).bind_free fun _ => spends_pure _

theorem spends_inFrame {n : Nat} {draw : Site α → Paint α ε (Fragment α)} (position : Position α)
    (h : ∀ own, own.inNumeral = site.inNumeral → own.binders = site.binders →
      Spends n (draw own)) :
    Spends n (inFrame position site draw) := by
  cases position with
  | alone => exact h site rfl rfl
  | argument offset =>
      have hdraw : Spends n (draw (site.right offset)) := h _ rfl rfl
      exact hdraw.bind_free fun drawn => spends_pure (drawn.translate offset Scalar.zero)

/-- **The number of colours that a drawing takes.** -/
theorem spends_drawAt (t : Term) (position : Position α) :
    Spends (t.colorsTaken site) (p.drawAt t position site) := by
  induction t using Term.induction generalizing site position with
  | var name index free =>
      have hnone : Term.colorsTaken (.var name index free) site = 0 := by
        simp [Term.colorsTaken, Term.plainAbstractions, Term.openApplications]
      rw [hnone, drawAt]
      exact spends_inFrame position fun own _ _ => spends_drawVariable name index free
  | lam name numeral body ih =>
      rw [drawAt, isForeign_term]
      refine spends_inFrame position fun own hnumeral hbinders => ?_
      rw [Term.colorsTaken_lam, ← hnumeral, ← hbinders]
      refine spends_drawAbstraction fun inner hinner hlength => ?_
      rw [← hinner, ← hlength]
      exact ih .alone
  | app f a ihf iha =>
      rw [Term.colorsTaken_app, Nat.add_assoc, drawAt]
      simp only [isForeign_term, Bool.or_false, Bool.and_false, Bool.false_eq_true, if_false]
      have hfunction : Spends (f.colorsTaken site)
          (p.drawAt f .alone (site.right position.offset)) := ihf .alone
      refine hfunction.bind fun function => ?_
      have hargument : Spends (a.colorsTaken site) (p.drawAt a
          (.argument (position.offset + Scalar.ofNat (2 * function.width) * p.unit)) site) := iha _
      refine hargument.bind fun argument => ?_
      let own := site.right position.offset
      have hjoin : Spends (if a.isBoundBelow own.binders.length then 0 else 1)
          (p.join f a function argument.stem (max function.height argument.height) own) :=
        spends_join f a function _ _
      exact hjoin.bind_free fun _ => spends_pure _

/-- **Colours come from the palette in turn.**  A term that is valid at a site is drawn there from
every state of the painter.  After `k` colours it is drawn as it is drawn first by the painter whose
palette is turned by `k`, and either drawing takes the colours of the term, no more and no fewer. -/
theorem draw_rotates_palette (p : Painter α) (t : Term) (site : Site α)
    (ht : t.isValid (site.binders.length : Int) = true) (k : Nat) (registry : LabelRegistry α) :
    ∃ d after, (p.draw t site).run.run ⟨k, registry⟩ =
        (.ok d, ⟨k + t.colorsTaken site, after⟩) ∧
      ((p.rotated k).draw t site).run.run ⟨0, registry⟩ =
        (.ok d, ⟨t.colorsTaken site, after⟩) := by
  have hsite : SameSite Eq site site := ⟨rfl, rfl, List.forall₂_refl _, rfl⟩
  have hstart : Ahead k (⟨k, registry⟩ : PaintState α) ⟨0, registry⟩ := ⟨(Nat.zero_add k).symm, rfl⟩
  obtain ⟨d, e, st, st', hd, he, halike, hindex, hregistry⟩ :=
    (coupling_rotated p k).drawAt (matching_rotated p k t) hsite ht .alone _ _ hstart
  have hed : e = d := halike.eq_of_isUnfitted (isUnfitted_of_yields ⟨_, _, hd⟩)
    (isUnfitted_of_yields ⟨_, _, he⟩)
  have hst : st = ⟨k + t.colorsTaken site, st.registry⟩ := by
    rw [← spends_drawAt t .alone _ _ _ hd]
  have hst' : st' = ⟨t.colorsTaken site, st.registry⟩ := by
    rw [hregistry, ← Nat.zero_add (t.colorsTaken site), ← spends_drawAt t .alone _ _ _ he]
  refine ⟨d, st.registry, ?_, ?_⟩
  · rw [draw, hd, ← hst]
  · rw [draw, he, hed, ← hst']

/-- The numeral two and an abstraction, both drawn below an abstraction after seven colours.  Of the
numeral only the outer application takes a colour; the abstraction takes one, and so does the
application to it. -/
theorem draw_rotates_palette_numeral :
    let two : Term := .lam (some "f") none (.lam (some "x") none
      (.app (.var (some "f") (some 1) false)
        (.app (.var (some "f") (some 1) false) (.var (some "x") (some 0) false))))
    let t : Term := .app two (.lam (some "y") none
      (.app (.var (some "y") (some 0) false) (.var (some "z") (some 1) false)))
    let site : Site Rat := ⟨10, 20, ["#123456"], false⟩
    t.isValid (site.binders.length : Int) = true ∧ t.colorsTaken site = 3 ∧
      t.colorsTaken { site with inNumeral := true } = 2 ∧
      ∃ s : LayoutSettings Rat, LayoutSettings.build (fun _ => none) = .ok s ∧
        ∃ d after,
          ((Painter.mk s 20).draw t site).run.run ⟨7, .empty 5 6⟩ = (.ok d, ⟨10, after⟩) ∧
          (((Painter.mk s 20).rotated 7).draw t site).run.run ⟨0, .empty 5 6⟩ =
            (.ok d, ⟨3, after⟩) := by
  intro two t site
  have hvalid : t.isValid (site.binders.length : Int) = true := by decide +kernel
  have hcolors : t.colorsTaken site = 3 := by decide +kernel
  have hinside : t.colorsTaken { site with inNumeral := true } = 2 := by decide +kernel
  obtain ⟨s, hs, -⟩ := LayoutSettings.exists_build
  have hdrawn := draw_rotates_palette (Painter.mk s 20) t site hvalid 7 (.empty 5 6)
  rw [hcolors] at hdrawn
  exact ⟨hvalid, hcolors, hinside, s, hs, hdrawn⟩

end Painter

end Tromp
