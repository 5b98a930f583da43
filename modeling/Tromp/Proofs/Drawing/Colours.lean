import Mathlib.Data.List.GetD
import Tromp.Drawing.Overflow
import Tromp.Proofs.Drawing.Coupling
import Tromp.Proofs.Drawing.Layout

/-!
# Colours of a drawing

The painter hands colours on from the settings to what it draws, and does nothing else with them.

1.  Settings that differ in colours only, the length of the palette included, give drawings that
    differ in colours only (`layout_withoutColors_eq`): the same shapes and the same labels at the
    same places.  Two such runs of the painter use up the same room for labels and as many colours
    (`run_eq_of_withoutColors_eq`), and they overflow alike (`layoutOverflow?_eq_of_withoutColors_eq`).
2.  Whatever is drawn has a colour of the settings, and a label shows a text of the term
    (`allPainted_of_layout`).  An empty palette hands out an empty colour.

Both hold in every arithmetic.
-/

namespace Tromp

variable {α : Type}

def Segment.withoutColor (g : Segment α) : Segment α := { g with color := "" }

def Dot.withoutColor (d : Dot α) : Dot α := { d with color := "" }

def Label.withoutColor (l : Label α) : Label α := { l with color := "" }

/-- The primitive without its colour. -/
def Primitive.withoutColor : Primitive α → Primitive α
  | line g => line g.withoutColor
  | label l => label l.withoutColor
  | dot d => dot d.withoutColor

/-- The drawing without its colours. -/
def Fragment.withoutColors [Scalar α] (d : Fragment α) : Fragment α :=
  { d with primitives := d.primitives.map Primitive.withoutColor }

/-- Colours are no numbers. -/
theorem Fragment.numbers_withoutColors [Scalar α] (d : Fragment α) :
    d.withoutColors.numbers = d.numbers := by
  have hnumbers : ∀ q : Primitive α, q.withoutColor.numbers = q.numbers := by
    intro q
    cases q <;> rfl
  simp only [numbers, withoutColors, List.flatMap_map, hnumbers]

/-- The settings without their colours. -/
def LayoutSettings.withoutColors (s : LayoutSettings α) : LayoutSettings α :=
  { s with colors := [], freeColor := "", textColor := "", operatorColor := "", numeralColor := "" }

/-- The colours of some settings. -/
def LayoutSettings.allColors (s : LayoutSettings α) : List String :=
  [s.freeColor, s.textColor, s.operatorColor, s.numeralColor] ++ s.colors

/-- A primitive has a colour of some kind, and if it is a label, a text of some kind. -/
def Primitive.Painted (C T : String → Prop) : Primitive α → Prop
  | line g => C g.color
  | label l => C l.color ∧ T l.text
  | dot d => C d.color

variable [Scalar α]

namespace Painter

variable {p p' : Painter α}

/-! ### Two runs with different colours -/

/-- Two painters whose settings differ in colours only draw the same but for the colours, from one
state. -/
theorem coupling_of_withoutColors_eq (p p' : Painter α)
    (h : p.settings.withoutColors = p'.settings.withoutColors) (hunit : p'.unit = p.unit) :
    p.Coupling p' Eq (fun _ _ => True)
      (fun asked asked' => asked.map Label.withoutColor = asked'.map Label.withoutColor)
      (fun q => some q.withoutColor) where
  unit_eq := hunit
  lineWidth_eq := (congrArg LayoutSettings.lineWidth h).symm
  binderOverhang_eq := (congrArg LayoutSettings.binderOverhang h).symm
  hideApplicationSymbols_eq := (congrArg LayoutSettings.hideApplicationSymbols h).symm
  freeColor := trivial
  numeralColor := trivial
  takeColor := by
    rintro st _ rfl
    exact ⟨_, _, _, _, rfl, rfl, trivial, rfl⟩
  write := by
    rintro site site' hsite asked asked' hasked st _ rfl
    have hshow : p'.settings.showLabels = p.settings.showLabels :=
      (congrArg LayoutSettings.showLabels h).symm
    unfold write labelled
    rw [hshow, hsite.inNumeral_eq]
    split
    · cases asked with
      | none =>
          cases asked' with
          | none => exact ⟨[], [], st, st, rfl, rfl, rfl, rfl⟩
          | some wish' => cases hasked
      | some wish =>
          cases asked' with
          | none => cases hasked
          | some wish' =>
              obtain ⟨x, y, text, color, size⟩ := wish
              obtain ⟨x', y', text', color', size'⟩ := wish'
              obtain ⟨rfl, rfl, rfl, -, rfl⟩ := Label.mk.inj (Option.some.inj hasked)
              refine ⟨_, _, _, _, rfl, rfl, ?_, ?_⟩
              · simp only [hsite.x_eq, hsite.y_eq]
                rfl
              · simp only [hsite.x_eq, hsite.y_eq]
    · exact ⟨[], [], st, st, rfl, rfl, rfl, rfl⟩
  view_line := by
    intro x1 y1 x2 y2 c c' width rounded _
    rfl
  view_dot := by
    intro x y r c c' _
    rfl
  view_translate := by
    intro q dx dy
    cases q <;> rfl

/-- A term matches itself, whatever colours its labels have. -/
theorem matching_self (h : p.settings.withoutColors = p'.settings.withoutColors)
    (hunit : p'.unit = p.unit) (t : Term) :
    Matching p p' (fun _ _ => True)
      (fun asked asked' => asked.map Label.withoutColor = asked'.map Label.withoutColor) t t := by
  have hlabels : p'.settings.variableLabels = p.settings.variableLabels :=
    (congrArg LayoutSettings.variableLabels h).symm
  have hoverhang : p'.settings.binderOverhang = p.settings.binderOverhang :=
    (congrArg LayoutSettings.binderOverhang h).symm
  induction t using Term.induction with
  | var name index free =>
      apply Matching.var
      intro i c c' _
      simp only [variableLabel, variableText, hunit, hlabels]
      rfl
  | lam name numeral body ih =>
      refine Matching.lam rfl ?_ ih
      simp only [abstractionLabel, hunit, hoverhang]
      rfl
  | app f a ihf iha =>
      refine Matching.app ?_ ihf iha
      intro row
      simp only [operatorLabel?, hunit]
      cases operator? f <;> rfl

end Painter

/-- Colours do not count when a term is fitted to the canvas. -/
theorem LayoutSettings.scaleOf_withoutColors (s : LayoutSettings α) (t : Term) :
    s.withoutColors.scaleOf t = s.scaleOf t := rfl

section Settings

variable {s s' : LayoutSettings α} (h : s.withoutColors = s'.withoutColors) {t : Term}

include h

theorem scaleOf_eq_of_withoutColors_eq : s'.scaleOf t = s.scaleOf t := by
  rw [← s'.scaleOf_withoutColors, ← h, s.scaleOf_withoutColors]

/-- **One run but for the colours.**  With settings that differ in colours only the painter draws a
valid term alike, and is left in one state. -/
theorem run_eq_of_withoutColors_eq (ht : t.isValid 0 = true) :
    ∃ d e after, s.run t = (.ok d, after) ∧ s'.run t = (.ok e, after) ∧
      (d.fitted s t).withoutColors = (e.fitted s' t).withoutColors := by
  have hscale := scaleOf_eq_of_withoutColors_eq h (t := t)
  have hsize : s'.unitSize = s.unitSize := (congrArg LayoutSettings.unitSize h).symm
  have hpadding : s'.padding = s.padding := (congrArg LayoutSettings.padding h).symm
  have hunit : (s'.painter t).unit = (s.painter t).unit := by
    simp only [LayoutSettings.painter, hsize, hscale]
  have hstart : PaintState.start s = PaintState.start s' := by
    have hregistry : s'.labelPadding = s.labelPadding ∧ s'.labelStep = s.labelStep :=
      ⟨(congrArg LayoutSettings.labelPadding h).symm, (congrArg LayoutSettings.labelStep h).symm⟩
    rw [PaintState.start, PaintState.start, hregistry.1, hregistry.2]
  have hroot : Painter.SameSite (α := α) (fun _ _ => True) .root .root := ⟨rfl, rfl, .nil, rfl⟩
  obtain ⟨drawn, drawn', after, after', hrun, hrun', halike, rfl⟩ :=
    (Painter.coupling_of_withoutColors_eq (s.painter t) (s'.painter t) h hunit).drawAt
      (Painter.matching_self h hunit t) hroot ht .alone (.start s) (.start s') hstart
  refine ⟨drawn, drawn', after, hrun, hrun', ?_⟩
  have hprimitives : drawn.primitives.map Primitive.withoutColor =
      drawn'.primitives.map Primitive.withoutColor := by
    simpa [Painter.SameView] using halike.primitives
  simp only [Fragment.withoutColors, Fragment.fitted, hunit, hscale, hpadding, halike.width_eq,
    halike.height_eq, halike.stem_eq, hprimitives]

/-- **Colours change nothing but colours.**  A valid term that is laid out with settings that differ
in colours only has one drawing but for the colours. -/
theorem layout_withoutColors_eq (ht : t.isValid 0 = true) :
    ∃ d e, layout s t = .ok d ∧ layout s' t = .ok e ∧ d.withoutColors = e.withoutColors := by
  obtain ⟨drawn, drawn', after, hrun, hrun', hfitted⟩ := run_eq_of_withoutColors_eq h ht
  have hd : layout s t = .ok (drawn.fitted s t) := layout_eq_ok_iff.mpr
    ⟨ht, drawn, congrArg Prod.fst hrun, rfl⟩
  have he : layout s' t = .ok (drawn'.fitted s' t) := layout_eq_ok_iff.mpr
    ⟨ht, drawn', congrArg Prod.fst hrun', rfl⟩
  exact ⟨_, _, hd, he, hfitted⟩

/-- The steps of fitting a term do not depend on colours either. -/
theorem fitNumbers_eq_of_withoutColors_eq : s'.fitNumbers t = s.fitNumbers t :=
  calc s'.fitNumbers t
      = s'.withoutColors.fitNumbers t := rfl
    _ = s.withoutColors.fitNumbers t := by rw [h]
    _ = s.fitNumbers t := rfl

/-- **Laying out comes to the same numbers** in all colours, also where one of them overflows. -/
theorem layoutNumbers_eq_of_withoutColors_eq (ht : t.isValid 0 = true) :
    layoutNumbers s' t = layoutNumbers s t := by
  obtain ⟨d, e, after, hrun, hrun', hfitted⟩ := run_eq_of_withoutColors_eq h ht
  have hnumbers : e.numbers = d.numbers := by
    have heq := congrArg Fragment.numbers hfitted
    rw [Fragment.numbers_withoutColors, Fragment.numbers_withoutColors] at heq
    exact heq.symm
  have hof : ∀ {r : LayoutSettings α} {b : Fragment α}, r.run t = (.ok b, after) →
      layoutNumbers r t =
        r.fitNumbers t ++ (b.numbers ++ after.numbers) ++ [r.padding * r.scaleOf t] := by
    intro r b hr
    have hdrawn : drawnNumbers (((r.painter t).draw t .root).run.run (.start r)) =
        b.numbers ++ after.numbers := congrArg drawnNumbers hr
    unfold layoutNumbers
    rw [Term.drawable_eq_ok_iff.mpr ⟨ht, rfl⟩]
    exact congrArg (r.fitNumbers t ++ · ++ [r.padding * r.scaleOf t]) hdrawn
  have hpadding : s'.padding = s.padding := (congrArg LayoutSettings.padding h).symm
  rw [hof hrun, hof hrun', fitNumbers_eq_of_withoutColors_eq h, hnumbers, hpadding,
    scaleOf_eq_of_withoutColors_eq h]

end Settings

/-- So a layout overflows in all colours or in none. -/
theorem layoutOverflow?_eq_of_withoutColors_eq {s s' : LayoutSettings Number}
    (h : s.withoutColors = s'.withoutColors) {t : Term} (ht : t.isValid 0 = true) :
    layoutOverflow? s' t = layoutOverflow? s t := by
  have hchecked : s.checked.withoutColors = s'.checked.withoutColors :=
    congrArg LayoutSettings.checked h
  exact congrArg Checked.overflow? (layoutNumbers_eq_of_withoutColors_eq hchecked ht)

/-! ### Where colours and texts come from -/

namespace Painter

open Paint

/-- The labels of a term show texts of some kind. -/
def ShowsTexts (p : Painter α) (T : String → Prop) : Term → Prop
  | .var name index _ => ∀ i ∈ index, T (p.variableText name i)
  | .lam name numeral body => T (abstractionText name numeral body) ∧ ShowsTexts p T body
  | .app f a => (∀ x ∈ operator? f, T x) ∧ ShowsTexts p T f ∧ ShowsTexts p T a

/-- Some primitives have colours and texts of some kinds. -/
def AllPainted (C T : String → Prop) (ps : List (Primitive α)) : Prop :=
  ∀ q ∈ ps, q.Painted C T

variable {p : Painter α} {C T : String → Prop} {site : Site α} {ps qs : List (Primitive α)}
  {t : Term} {d : Fragment α}

omit [Scalar α] in
theorem AllPainted.append (hps : AllPainted C T ps) (hqs : AllPainted C T qs) :
    AllPainted C T (ps ++ qs) := List.forall_mem_append.mpr ⟨hps, hqs⟩

theorem AllPainted.translate (h : AllPainted C T ps) (dx dy : α) :
    AllPainted C T (ps.map (Primitive.translate dx dy)) := by
  intro q hq
  obtain ⟨own, hown, rfl⟩ := List.mem_map.mp hq
  have hpainted := h own hown
  cases own <;> exact hpainted

/-- What is written is what was asked for. -/
theorem allPainted_of_yields_write {asked : Option (Label α)}
    (hasked : ∀ l ∈ asked, C l.color ∧ T l.text) (h : Yields (p.write (ε := Empty) site asked) ps) :
    AllPainted C T ps := by
  unfold write labelled at h
  split at h
  · cases asked with
    | none =>
        rw [yields_pure h]
        exact nofun
    | some wish =>
        obtain ⟨q, hq, hps⟩ := yields_bind h
        obtain ⟨_, -, hq⟩ := yields_bind hq
        rw [yields_pure hps, yields_pure hq]
        exact List.forall_mem_singleton.mpr (hasked wish rfl)
  · rw [yields_pure h]
    exact nofun

/-- All of a joint has the colour of its application. -/
theorem allPainted_joint {drawn : Fragment α} {argumentStem row : Nat} {color : String}
    (hcolor : C color) : AllPainted C T (p.joint drawn argumentStem row color) := by
  have hfiller : ∀ (c : Prop) [Decidable c] (x1 y1 x2 y2 w : α),
      AllPainted C T (if c then [.line ⟨x1, y1, x2, y2, color, w, false⟩] else []) := by
    intro c _ x1 y1 x2 y2 w
    split
    · exact List.forall_mem_singleton.mpr hcolor
    · exact nofun
  have hdot : ∀ (c : Prop) [Decidable c] (x y r : α),
      AllPainted C T (if c then [] else [.dot ⟨x, y, r, color⟩]) := by
    intro c _ x y r
    split
    · exact nofun
    · exact List.forall_mem_singleton.mpr hcolor
  exact ((hfiller _ _ _ _ _ _).append (hfiller _ _ _ _ _ _)).append
    (List.forall_mem_cons.mpr ⟨hcolor, hdot _ _ _ _⟩)

section Colors

variable (hcolors : ∀ c ∈ p.settings.allColors, C c) (hnone : C "")

include hcolors hnone

omit [Scalar α] in
/-- The palette hands out its colours, and an empty one if it has none. -/
theorem color_of_yields_takeColor {c : String} (h : Yields (p.takeColor (ε := Empty)) c) : C c := by
  obtain ⟨st, st', h⟩ := h
  obtain rfl : p.settings.colors.getD (st.colorIndex % p.settings.colors.length) "" = c :=
    Except.ok.inj (congrArg Prod.fst h)
  by_cases hi : st.colorIndex % p.settings.colors.length < p.settings.colors.length
  · rw [List.getD_eq_getElem _ _ hi]
    exact hcolors _ (List.mem_append_right _ (List.getElem_mem hi))
  · rw [List.getD_eq_default _ _ (Nat.le_of_not_lt hi)]
    exact hnone

omit [Scalar α] in
theorem color_of_yields_applicationColor (hbinders : ∀ c ∈ site.binders, C c) {a : Term}
    {c : String} (h : Yields (p.applicationColor a site.binders) c) : C c := by
  rw [applicationColor_eq] at h
  split at h
  next own hown =>
      obtain ⟨i, -, hi⟩ := Option.bind_eq_some_iff.mp hown
      rw [yields_pure h]
      exact hbinders _ (List.mem_of_getElem? hi)
  next => exact color_of_yields_takeColor hcolors hnone h

omit hnone [Scalar α] in
/-- The colour of a variable is that of its abstraction or that of free variables. -/
theorem color_of_variableColor (hbinders : ∀ c ∈ site.binders, C c) {name : Option String}
    {index : Option Nat} {free : Bool} {c : String} {i : Nat}
    (h : p.variableColor (ε := Empty) name index free site.binders = .ok (c, i)) : C c := by
  unfold variableColor at h
  split at h
  next => cases h
  next =>
      split at h
      next =>
          cases h
          exact hcolors _ (by simp [LayoutSettings.allColors])
      next =>
          split at h
          next own hown =>
              cases h
              exact hbinders _ (List.mem_of_getElem? hown)
          next => cases h

omit hnone in
theorem allPainted_of_yields_drawVariable (hbinders : ∀ c ∈ site.binders, C c)
    {name : Option String} {index : Option Nat} {free : Bool}
    (htexts : ∀ i ∈ index, T (p.variableText name i))
    (h : Yields (p.drawVariable (ε := Empty) name index free site) d) :
    AllPainted C T d.primitives := by
  obtain ⟨⟨color, i⟩, hcolor, hrest⟩ := yields_bind h
  have hfound := yields_ofExcept hcolor
  have hline := color_of_variableColor hcolors hbinders hfound
  obtain ⟨labels, hlabels, hd⟩ := yields_bind hrest
  have hasked : ∀ l ∈ some (p.variableLabel name i color), C l.color ∧ T l.text := by
    rintro l ⟨⟩
    exact ⟨hline, htexts i (index_of_variableColor hfound)⟩
  rw [yields_pure hd]
  exact List.forall_mem_cons.mpr ⟨hline, allPainted_of_yields_write hasked hlabels⟩

theorem allPainted_of_yields_drawAbstraction (hbinders : ∀ c ∈ site.binders, C c)
    {name : Option String} {numeral : Option Int} {body : Term}
    {drawBody : Site α → Paint α Empty (Fragment α)} (htext : T (abstractionText name numeral body))
    (hbody : ∀ own inner, (∀ c ∈ own.binders, C c) → Yields (drawBody own) inner →
      AllPainted C T inner.primitives)
    (h : Yields (p.drawAbstraction name numeral body drawBody site) d) :
    AllPainted C T d.primitives := by
  obtain ⟨color, hcolor, hrest⟩ := yields_bind_of_ite h
  have hbar : C color := by
    split at hcolor
    · rw [yields_pure hcolor]
      exact hcolors _ (by simp [LayoutSettings.allColors])
    · exact color_of_yields_takeColor hcolors hnone hcolor
  obtain ⟨inner, hinner, hrest⟩ := yields_bind hrest
  obtain ⟨labels, hlabels, hd⟩ := yields_bind hrest
  have hbelow := hbody _ _ (List.forall_mem_cons.mpr ⟨hbar, hbinders⟩) hinner
  have hasked : ∀ l ∈ some (p.abstractionLabel name numeral body), C l.color ∧ T l.text := by
    rintro l ⟨⟩
    exact ⟨hcolors _ (by simp [LayoutSettings.allColors, abstractionLabel]), htext⟩
  have hwritten := allPainted_of_yields_write hasked hlabels
  rw [yields_pure hd]
  exact AllPainted.append (List.forall_mem_cons.mpr ⟨hbar, hwritten⟩) (hbelow.translate _ _)

theorem allPainted_of_yields_join (hbinders : ∀ c ∈ site.binders, C c) {f a : Term}
    {drawn : Fragment α} {argumentStem row : Nat} (htexts : ∀ x ∈ operator? f, T x)
    (h : Yields (p.join f a drawn argumentStem row site) ps) : AllPainted C T ps := by
  rw [join_eq_write] at h
  obtain ⟨color, hcolor, hrest⟩ := yields_bind h
  obtain ⟨labels, hlabels, hps⟩ := yields_bind hrest
  have hwritten : AllPainted C T labels := by
    refine allPainted_of_yields_write ?_ hlabels
    intro l hl
    obtain ⟨name, hname, rfl⟩ := Option.map_eq_some_iff.mp hl
    exact ⟨hcolors _ (by simp [LayoutSettings.allColors]), htexts name hname⟩
  rw [yields_pure hps]
  exact (allPainted_joint (color_of_yields_applicationColor hcolors hnone hbinders hcolor)).append
    hwritten

/-- **Drawings have the colours of the settings and the texts of the term.** -/
theorem allPainted_of_yields (htexts : p.ShowsTexts T t) (hbinders : ∀ c ∈ site.binders, C c)
    {position : Position α} (h : Yields (p.drawAt t position site) d) :
    AllPainted C T d.primitives := by
  have hframe : ∀ {position : Position α} {site : Site α} {d : Fragment α}
      {draw : Site α → Paint α Empty (Fragment α)},
      (∀ own inner, own.binders = site.binders → Yields (draw own) inner →
        AllPainted C T inner.primitives) →
      Yields (inFrame position site draw) d → AllPainted C T d.primitives := by
    intro position site d draw hdraw h
    cases position with
    | alone => exact hdraw site d rfl h
    | argument offset =>
        obtain ⟨inner, hinner, hd⟩ := yields_bind h
        rw [yields_pure hd]
        exact (hdraw (site.right offset) inner rfl hinner).translate offset Scalar.zero
  induction t using Term.induction generalizing site d position with
  | var name index free =>
      refine hframe (fun own inner hown hinner => ?_) h
      exact allPainted_of_yields_drawVariable hcolors (hown ▸ hbinders) htexts hinner
  | lam name numeral body ih =>
      rw [drawAt, isForeign_term] at h
      refine hframe (fun own inner hown hinner => ?_) h
      exact allPainted_of_yields_drawAbstraction hcolors hnone (hown ▸ hbinders) htexts.1
        (fun _ _ hbelow hdrawn => ih htexts.2 hbelow hdrawn) hinner
  | app f a ihf iha =>
      obtain ⟨hoperator, hf, ha⟩ := htexts
      rw [drawAt, isForeign_term, isForeign_term, Bool.or_self, Bool.and_false] at h
      obtain ⟨function, hfunction, hrest⟩ := yields_bind h
      obtain ⟨argument, hargument, hrest⟩ := yields_bind hrest
      obtain ⟨bars, hbars, hd⟩ := yields_bind hrest
      have hbinders' : ∀ c ∈ (site.right position.offset).binders, C c := hbinders
      have hjoined := allPainted_of_yields_join hcolors hnone hbinders' hoperator hbars
      rw [yields_pure hd]
      exact ((hjoined.translate _ _).append ((ihf hf hbinders' hfunction).translate _ _)).append
        (iha ha hbinders hargument)

end Colors

end Painter

/-- **Layouts have the colours of the settings and the texts of the term.** -/
theorem allPainted_of_layout {C T : String → Prop} {s : LayoutSettings α} {t : Term}
    {d : Fragment α} (hcolors : ∀ c ∈ s.allColors, C c) (hnone : C "")
    (htexts : (s.painter t).ShowsTexts T t) (hd : layout s t = .ok d) :
    Painter.AllPainted C T d.primitives := by
  obtain ⟨-, drawn, hrun, rfl⟩ := layout_eq_ok_iff.mp hd
  have hyields : Paint.Yields ((s.painter t).drawAt t .alone .root) drawn :=
    ⟨.start s, (s.run t).2, Prod.ext hrun rfl⟩
  have hroot : ∀ c ∈ (Site.root : Site α).binders, C c := List.forall_mem_nil C
  have hdrawn : Painter.AllPainted C T drawn.primitives :=
    Painter.allPainted_of_yields hcolors hnone htexts hroot hyields
  exact hdrawn

end Tromp
