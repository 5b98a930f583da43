import Mathlib.Data.List.Perm.Basic
import Mathlib.Tactic.Linarith
import Tromp.Proofs.Drawing.Boxes
import Tromp.Proofs.Drawing.Labelling
import Tromp.Proofs.Drawing.Placement
import Tromp.Proofs.Drawing.Success

/-!
# Labels stand where they were reserved

A label is placed on the canvas, kept in the frame of its node, and moved whenever that frame
becomes part of another.  In exact arithmetic the moves cancel the way down: `Painter.captions`
lists what a term asks for in its own frame, in the order of drawing, and the labels of the finished
drawing are those captions where they were placed (`Painter.placed_drawNested`).

So the boxes that were registered are the boxes of the labels that are drawn, and two labels keep
apart unless the later one found no free place (`layout_isLabelled`).
-/

namespace Tromp

/-- A caption moved by a vector. -/
def Caption.translate (c : Caption Rat) (dx dy : Rat) : Caption Rat :=
  { c with x := c.x + dx, y := c.y + dy }

/-- A label moved by a vector. -/
def Label.translate (l : Label Rat) (dx dy : Rat) : Label Rat :=
  { l with x := l.x + dx, y := l.y + dy }

theorem Caption.translate_zero (c : Caption Rat) : c.translate 0 0 = c := by
  simp [translate]

theorem Caption.translate_translate (c : Caption Rat) (a b x y : Rat) :
    (c.translate a b).translate x y = c.translate (x + a) (y + b) := by
  simp only [translate, Caption.mk.injEq, and_self, and_true]
  exact ⟨by ring, by ring⟩

theorem Label.caption_translate (l : Label Rat) (dx dy : Rat) :
    (l.translate dx dy).caption = l.caption.translate dx dy := rfl

theorem Primitive.label?_translate (q : Primitive Rat) (dx dy : Rat) :
    (q.translate dx dy).label? = q.label?.map (·.translate dx dy) := by
  cases q <;> rfl

theorem Fragment.labels_translate (d : Fragment Rat) (dx dy : Rat) :
    (d.translate dx dy).labels = d.labels.map (·.translate dx dy) :=
  Primitive.filterMap_translate (fun q => q.label?_translate dx dy) d.primitives

namespace Painter

/-- What a node asks for, where labels are on. -/
def noted {α : Type} (p : Painter α) (inNumeral : Bool) (asked : Option (Label α)) :
    List (Caption α) :=
  if p.settings.showLabels && !inNumeral then (asked.map Label.caption).toList else []

/-- What a term asks for in its own frame, in the order of drawing: the parts of a term ask before
the term itself. -/
def captions (p : Painter Rat) : Term → Bool → List (Caption Rat)
  | .var name index _, inNumeral =>
    p.noted inNumeral (index.map fun i => p.variableLabel name i "")
  | .lam name numeral body, inNumeral =>
    (captions p body (inNumeral || numeral.isSome || (positiveNumeral? name body).isSome)).map
        (·.translate 0 p.unit) ++
      p.noted inNumeral (some (p.abstractionLabel name numeral body))
  | .app f a, inNumeral =>
    captions p f inNumeral ++
      ((captions p a inNumeral).map (·.translate (Scalar.ofNat (2 * Term.width f) * p.unit) 0) ++
        p.noted inNumeral (p.operatorLabel? f (max (Term.height f) (Term.height a))))

/-- Captions of a frame that lies at a point of the canvas are placed one after another, and labels
of the frame stand where they are placed. -/
structure Placed (x y : Rat) (cs : List (Caption Rat)) (r r' : LabelRegistry Rat)
    (ls : List (Label Rat)) : Prop where
  registry_eq : r' = r.placeAll (cs.map (·.translate x y))
  perm : (ls.map fun l => l.caption.translate x y).Perm
    ((r.placements (cs.map (·.translate x y))).map Placement.placed)

namespace Placed

variable {x y : Rat} {cs ds : List (Caption Rat)} {r r' r'' : LabelRegistry Rat}
  {ls ms : List (Label Rat)}

theorem nil (x y : Rat) (r : LabelRegistry Rat) : Placed x y [] r r [] := ⟨rfl, .nil⟩

/-- What is placed in two goes is placed one after another. -/
theorem append (h : Placed x y cs r r' ls) (h' : Placed x y ds r' r'' ms) :
    Placed x y (cs ++ ds) r r'' (ls ++ ms) where
  registry_eq := by
    rw [List.map_append, LabelRegistry.placeAll_append, ← h.registry_eq, h'.registry_eq]
  perm := by
    rw [List.map_append, List.map_append, LabelRegistry.placements_append, ← h.registry_eq,
      List.map_append]
    exact h.perm.append h'.perm

/-- **Moves cancel the way down.**  What is placed in a frame that lies further on is placed in the
frame around it once it is moved there. -/
theorem translate {dx dy : Rat} (h : Placed (x + dx) (y + dy) cs r r' ls) :
    Placed x y (cs.map (·.translate dx dy)) r r' (ls.map (·.translate dx dy)) where
  registry_eq := by
    simpa [Function.comp_def, Caption.translate_translate] using h.registry_eq
  perm := by
    simpa [Function.comp_def, Label.caption_translate, Caption.translate_translate] using h.perm

theorem reorder (h : Placed x y cs r r' ls) (hms : ms.Perm ls) : Placed x y cs r r' ms :=
  ⟨h.registry_eq, (hms.map _).trans h.perm⟩

end Placed

/-! ### The steps of the painter -/

open Paint

variable {p : Painter Rat} {site : Site Rat} {d : Fragment Rat} {st st' : PaintState Rat}

/-- **Writing** places what is asked for. -/
theorem placed_write {ε : Type} (asked : Option (Label Rat)) {ps : List (Primitive Rat)}
    (h : (p.write (ε := ε) site asked).run.run st = (.ok ps, st')) :
    Placed site.x site.y (p.noted site.inNumeral asked) st.registry st'.registry
      (ps.filterMap Primitive.label?) := by
  unfold write labelled at h
  unfold noted
  split at h
  next hon =>
      rw [if_pos hon]
      cases asked with
      | none =>
          cases h
          exact .nil _ _ _
      | some wish =>
          cases h
          have hanchor : wish.caption.translate site.x site.y =
              ⟨site.x + wish.x, site.y + wish.y, wish.text, wish.fontSize⟩ := by
            simp [Label.caption, Caption.translate, add_comm]
          refine ⟨?_, .of_eq ?_⟩
          · change _ = st.registry.placing (wish.caption.translate site.x site.y)
            rw [hanchor]
            rfl
          · change _ = [(st.registry.placement (wish.caption.translate site.x site.y)).placed]
            rw [hanchor]
            -- On the canvas the label stands where it was placed.
            simp only [List.filterMap_cons, List.filterMap_nil, Primitive.label?, List.map_cons,
              List.map_nil, Label.caption, Caption.translate, sub_add_cancel]
            rfl
  next hoff =>
      rw [if_neg hoff]
      cases h
      exact .nil _ _ _

/-- Taking a colour places nothing. -/
theorem registry_of_applicationColor {ε : Type} {a : Tree ε} {binders : List String}
    {color : String} (h : (p.applicationColor a binders).run.run st = (.ok color, st')) :
    st'.registry = st.registry := by
  unfold applicationColor at h
  split at h
  · split at h
    · cases h
      rfl
    · cases h
      rfl
  · cases h
    rfl

/-- **Variables.** -/
theorem placed_drawVariable {name : Option String} {index : Option Nat} {free : Bool}
    (h : (p.drawVariable (ε := Empty) name index free site).run.run st = (.ok d, st')) :
    Placed site.x site.y (p.captions (.var name index free) site.inNumeral) st.registry st'.registry
      d.labels := by
  obtain ⟨⟨color, i⟩, after, hcolor, h'⟩ := exists_of_run_bind h
  obtain ⟨labels, last, hlabels, hd⟩ := exists_of_run_bind h'
  obtain ⟨hfound, rfl⟩ := of_run_ofExcept hcolor
  obtain ⟨rfl, -, -⟩ := of_variableColor hfound
  cases hd
  have hplaced := placed_write (some (p.variableLabel name i color)) hlabels
  exact hplaced

/-- **Abstractions.**  The body asks first, one row below the abstraction. -/
theorem placed_drawAbstraction {name : Option String} {numeral : Option Int} {body : Term}
    {drawBody : Site Rat → Paint Rat Empty (Fragment Rat)}
    (hbody : ∀ {own inner st st'}, (drawBody own).run.run st = (.ok inner, st') →
      Placed own.x own.y (p.captions body own.inNumeral) st.registry st'.registry inner.labels)
    (h : (p.drawAbstraction name numeral body drawBody site).run.run st = (.ok d, st')) :
    Placed site.x site.y (p.captions (.lam name numeral body) site.inNumeral) st.registry
      st'.registry d.labels := by
  obtain ⟨color, taken, hcolor, hrest⟩ := exists_of_run_ite_bind h
  obtain ⟨inner, after, hinner, hrest'⟩ := exists_of_run_bind hrest
  obtain ⟨labels, last, hlabels, hd⟩ := exists_of_run_bind hrest'
  cases hd
  have htaken : taken.registry = st.registry := by
    split at hcolor
    · cases hcolor
      rfl
    · cases hcolor
      rfl
  have hbelow := hbody hinner
  rw [htaken, ← add_zero site.x] at hbelow
  have hown := placed_write (some (p.abstractionLabel name numeral body)) hlabels
  refine (hbelow.translate.append hown).reorder ?_
  rw [← Fragment.labels_translate]
  change (List.filterMap Primitive.label? (labels ++ (inner.translate 0 p.unit).primitives)).Perm _
  rw [List.filterMap_append]
  exact List.perm_append_comm

/-- A joint has no labels. -/
theorem filterMap_label?_joint (drawn : Fragment Rat) (argumentStem row : Nat) (color : String) :
    (p.joint drawn argumentStem row color).filterMap Primitive.label? = [] := by
  rw [List.filterMap_eq_nil_iff]
  intro q hq
  obtain ⟨line, rfl⟩ | ⟨-, dot, rfl⟩ := of_mem_joint hq
  · rfl
  · rfl

/-- **Joints.** -/
theorem placed_join {f a : Term} {drawn : Fragment Rat} {argumentStem row : Nat}
    {bars : List (Primitive Rat)}
    (h : (p.join f a drawn argumentStem row site).run.run st = (.ok bars, st')) :
    Placed site.x site.y (p.noted site.inNumeral (p.operatorLabel? f row)) st.registry st'.registry
      (bars.filterMap Primitive.label?) := by
  rw [join_eq_write] at h
  obtain ⟨color, taken, hcolor, hrest⟩ := exists_of_run_bind h
  obtain ⟨labels, last, hlabels, hbars⟩ := exists_of_run_bind hrest
  cases hbars
  have hplaced := placed_write (p.operatorLabel? f row) hlabels
  rw [registry_of_applicationColor hcolor] at hplaced
  refine hplaced.reorder (.of_eq ?_)
  rw [List.filterMap_append]
  rw [filterMap_label?_joint, List.nil_append]

/-- **Labels stand where captions are placed**, those of the parts of a term before its own. -/
theorem placed_drawNested {t : Term}
    (h : (p.drawNested t site).run.run st = (.ok d, st')) :
    Placed site.x site.y (p.captions t site.inNumeral) st.registry st'.registry d.labels := by
  induction t using Term.induction generalizing site d st st' with
  | var name index free => exact placed_drawVariable h
  | lam name numeral body ih => exact placed_drawAbstraction (fun h => ih h) h
  | app f a ihf iha =>
      obtain ⟨function, first, hfunction, hrest⟩ := exists_of_run_bind h
      obtain ⟨argument, second, hargument, hrest'⟩ := exists_of_run_bind hrest
      obtain ⟨bars, third, hbars, hd⟩ := exists_of_run_bind hrest'
      cases hd
      have hf := shows_of_yields ⟨_, _, hfunction⟩
      have ha := shows_of_yields ⟨_, _, hargument⟩
      have hargument' := iha hargument
      have hown := placed_join hbars
      rw [hf.width_eq, ← add_zero (site.right _).y] at hargument'
      rw [hf.height_eq, ha.height_eq] at hown
      refine ((ihf hfunction).append (hargument'.translate.append hown)).reorder ?_
      rw [← Fragment.labels_translate]
      change (List.filterMap Primitive.label? (bars ++ function.primitives ++ _)).Perm _
      rw [List.filterMap_append, List.filterMap_append, List.append_assoc, hf.width_eq]
      exact List.perm_append_comm.trans (.of_eq (List.append_assoc _ _ _))

theorem fontSize_pos_of_mem_noted {inNumeral : Bool} {asked : Option (Label Rat)}
    (hasked : ∀ l ∈ asked, 0 < l.fontSize) {c : Caption Rat} (hc : c ∈ p.noted inNumeral asked) :
    0 < c.fontSize := by
  unfold noted at hc
  split at hc
  · cases asked with
    | none => cases hc
    | some l =>
        obtain rfl := List.mem_singleton.mp hc
        exact hasked l rfl
  · cases hc

/-- Captions have a font of a positive size. -/
theorem fontSize_pos_of_mem_captions {t : Term} {inNumeral : Bool} {c : Caption Rat}
    (hc : c ∈ p.captions t inNumeral) : 0 < c.fontSize := by
  have hsmall : (0 : Rat) < Scalar.ofNat 12 := by norm_num
  have hlarge : (0 : Rat) < Scalar.ofNat 14 := by norm_num
  induction t using Term.induction generalizing inNumeral c with
  | var name index free =>
      refine fontSize_pos_of_mem_noted (fun l hl => ?_) hc
      obtain ⟨i, -, rfl⟩ := Option.mem_map.mp hl
      exact hsmall
  | lam name numeral body ih =>
      rcases List.mem_append.mp hc with hc | hc
      · obtain ⟨own, hown, rfl⟩ := List.mem_map.mp hc
        exact (ih hown :)
      · refine fontSize_pos_of_mem_noted (fun l hl => ?_) hc
        cases hl
        exact hlarge
  | app f a ihf iha =>
      rcases List.mem_append.mp hc with hc | hc
      · exact ihf hc
      rcases List.mem_append.mp hc with hc | hc
      · obtain ⟨own, hown, rfl⟩ := List.mem_map.mp hc
        exact (iha hown :)
      · refine fontSize_pos_of_mem_noted (fun l hl => ?_) hc
        obtain ⟨operator, -, rfl⟩ := Option.mem_map.mp hl
        exact hsmall

end Painter

namespace LabelRegistry

variable {r : LabelRegistry Rat}

/-- The box that is kept free for a label holds the label, unless space is taken away around it. -/
theorem bounds_le_boxOf (hr : 0 ≤ r.padding) {l : Label Rat} (hl : 0 < l.fontSize) :
    (Primitive.label l).bounds ≤ r.boxOf l.caption := by
  simp only [Primitive.bounds, boxOf, box, Label.caption, Box.le_iff,
    Interval.between_le_between_iff]
  exact ⟨⟨by linarith, by linarith⟩, by linarith, by linarith⟩

/-- Labels whose boxes do not collide do not overlap. -/
theorem bounds_apart (hr : 0 ≤ r.padding) {l m : Label Rat} (hl : 0 < l.fontSize)
    (hm : 0 < m.fontSize) (h : (r.boxOf m.caption).collides (r.boxOf l.caption) = false) :
    (Primitive.label l).bounds.collides (Primitive.label m).bounds = false := by
  rw [Bool.eq_false_iff]
  intro hcollide
  rw [Box.collides_comm] at hcollide
  have hgrown := Box.collides_mono (bounds_le_boxOf hr hm) (bounds_le_boxOf hr hl) hcollide
  rw [h] at hgrown
  cases hgrown

end LabelRegistry

/-! ### Whole layouts -/

namespace LayoutSettings

/-- What is registered while a term is drawn. -/
def registry (s : LayoutSettings Rat) (t : Term) : LabelRegistry Rat := (s.run t).2.registry

/-- How the captions of a term are placed, one after another. -/
def placements (s : LayoutSettings Rat) (t : Term) : List (Placement Rat) :=
  (LabelRegistry.empty s.labelPadding s.labelStep).placements ((s.painter t).captions t false)

variable {s : LayoutSettings Rat} {t : Term} {q : Placement Rat}

theorem fontSize_pos_of_mem_placements (hq : q ∈ s.placements t) : 0 < q.placed.fontSize := by
  have hasked : q.asked ∈ (s.painter t).captions t false := by
    rw [← LabelRegistry.map_asked_placements (.empty s.labelPadding s.labelStep)
      ((s.painter t).captions t false)]
    exact List.mem_map_of_mem hq
  rw [(LabelRegistry.fontSize_placed hq).2]
  exact Painter.fontSize_pos_of_mem_captions hasked

end LayoutSettings

section Layout

variable {s : LayoutSettings Rat} {t : Term} {d : Fragment Rat}

/-- **The labels of a layout are its captions where they were placed**, and nothing else is
registered. -/
theorem placed_of_layout (h : layout s t = .ok d) :
    s.registry t = (LabelRegistry.empty s.labelPadding s.labelStep).placeAll
        ((s.painter t).captions t false) ∧
      (d.labels.map Label.caption).Perm ((s.placements t).map Placement.placed) := by
  obtain ⟨drawn, hrun, rfl⟩ := exists_drawNested_of_layout h
  obtain ⟨hregistry, hperm⟩ := Painter.placed_drawNested hrun
  simp only [Site.root, Scalar.decimal_zero_rat, Caption.translate_zero, List.map_id'] at hregistry
  simp only [Site.root, Scalar.decimal_zero_rat, Caption.translate_zero, List.map_id'] at hperm
  exact ⟨hregistry, hperm⟩

theorem padding_registry (h : layout s t = .ok d) : (s.registry t).padding = s.labelPadding := by
  rw [(placed_of_layout h).1, LabelRegistry.padding_placeAll]
  rfl

/-- One box is registered for each placement. -/
theorem boxes_registry (h : layout s t = .ok d) :
    (s.registry t).boxes = (s.placements t).map fun q => (s.registry t).boxOf q.placed := by
  have hboxes := LabelRegistry.boxes_placeAll (.empty s.labelPadding s.labelStep)
    ((s.painter t).captions t false)
  rw [← (placed_of_layout h).1] at hboxes
  have hbox : ∀ q ∈ s.placements t, (s.registry t).boxOf q.placed =
      (LabelRegistry.empty s.labelPadding s.labelStep).boxOf q.placed :=
    fun q _ => LabelRegistry.boxOf_congr (padding_registry h) q.placed
  rw [List.map_congr_left hbox]
  exact hboxes

/-- The labels of a layout in the order of placing, each beside its placement. -/
theorem exists_written (h : layout s t = .ok d) :
    ∃ written : List (Placement Rat × Label Rat),
      written.map Prod.fst = s.placements t ∧ (written.map Prod.snd).Perm d.labels ∧
      ∀ w ∈ written, w.1.placed = w.2.caption := by
  have hcaptions : List.Forall₂ (fun c l => c = Label.caption l) (d.labels.map Label.caption)
      d.labels := List.forall₂_map_left_iff.mpr (List.forall₂_same.mpr fun _ _ => rfl)
  obtain ⟨labels, hplaced, hlabels⟩ :=
    List.perm_comp_forall₂ (placed_of_layout h).2.symm hcaptions
  obtain ⟨hlength, hplaced⟩ := List.forall₂_iff_zip.mp (List.forall₂_map_left_iff.mp hplaced)
  have hsnd : ((s.placements t).zip labels).map Prod.snd = labels := List.map_snd_zip hlength.ge
  exact ⟨(s.placements t).zip labels, List.map_fst_zip hlength.le, hsnd.symm ▸ hlabels,
    fun w hw => hplaced hw⟩

/-- The labels of a drawing stand where they were reserved while its term was drawn, and keep
apart. -/
structure Fragment.IsLabelled (d : Fragment Rat) (s : LayoutSettings Rat) (t : Term) : Prop where
  /-- The boxes of the labels are those that were registered. -/
  boxes : (d.labels.map fun l => (s.registry t).box l.x l.y l.text l.fontSize).Perm
    (s.registry t).boxes
  /-- In the order of placing, a label that was placed at one of its candidates overlaps no label
  before it. -/
  apart : ∃ written : List (Placement Rat × Label Rat),
    written.map Prod.fst = s.placements t ∧ (written.map Prod.snd).Perm d.labels ∧
    (∀ w ∈ written, w.1.placed = w.2.caption) ∧
    (written.map fun w => (s.registry t).boxOf w.2.caption) = (s.registry t).boxes ∧
    written.Pairwise fun earlier later => later.1.atCandidate = true →
      (Primitive.label earlier.2).bounds.collides (Primitive.label later.2).bounds = false

/-- **Labels stand where they were reserved, and keep apart**, in every layout with accepted
settings. -/
theorem layout_isLabelled (hs : s.IsAccepted) (h : layout s t = .ok d) : d.IsLabelled s t := by
  obtain ⟨written, hfst, hsnd, hplaced⟩ := exists_written h
  have hboxes : (written.map fun w => (s.registry t).boxOf w.2.caption) =
      (s.registry t).boxes := by
    rw [boxes_registry h, ← hfst, List.map_map]
    exact List.map_congr_left fun w hw => congrArg (s.registry t).boxOf (hplaced w hw).symm
  refine ⟨?_, written, hfst, hsnd, hplaced, hboxes, ?_⟩
  · have hregistered := hsnd.symm.map fun l => (s.registry t).boxOf l.caption
    rw [List.map_map] at hregistered
    exact hregistered.trans (.of_eq hboxes)
  · have hapart : (s.placements t).Pairwise _ := LabelRegistry.pairwise_placements
      (.empty s.labelPadding s.labelStep) ((s.painter t).captions t false)
    rw [← hfst, List.pairwise_map] at hapart
    have hfont : ∀ w ∈ written, 0 < w.2.fontSize := by
      intro w hw
      have hmem : w.1 ∈ s.placements t := hfst ▸ List.mem_map_of_mem hw
      have hpos := LayoutSettings.fontSize_pos_of_mem_placements hmem
      rwa [hplaced w hw] at hpos
    refine hapart.imp_of_mem fun {earlier later} hearlier hlater hfree hcandidate => ?_
    have hcollides := hfree hcandidate
    rw [hplaced earlier hearlier, hplaced later hlater] at hcollides
    exact LabelRegistry.bounds_apart hs.bounds.labelPadding_nonneg (hfont earlier hearlier)
      (hfont later hlater) hcollides

end Layout

/-- The identity has two labels where labels are on. -/
theorem layout_isLabelled_identity :
    let identity : Term := .lam (some "x") none (.var (some "x") (some 0) false)
    ∃ (s : LayoutSettings Rat) (d : Fragment Rat), s.IsAccepted ∧ s.showLabels = true ∧
      layout s identity = .ok d ∧ d.labels.length = 2 ∧ d.IsLabelled s identity := by
  intro identity
  have hlabelled : ∃ s : LayoutSettings Rat,
      LayoutSettings.build (fun field => if field = .showLabels then some (.flag true) else none) =
        .ok s ∧ s.showLabels = true := Guard.exists_of_map_toOption (by decide +kernel)
  obtain ⟨s, hbuild, hon⟩ := hlabelled
  obtain ⟨d, hd⟩ := exists_layout s (t := identity) (by decide)
  have hs := LayoutSettings.IsAccepted.of_build hbuild
  have hlength : d.labels.length = ((s.painter identity).captions identity false).length := by
    have hperm := (placed_of_layout hd).2.length_eq
    have hasked := congrArg List.length (LabelRegistry.map_asked_placements
      (.empty s.labelPadding s.labelStep) ((s.painter identity).captions identity false))
    rw [List.length_map] at hasked
    rw [List.length_map, List.length_map] at hperm
    exact hperm.trans hasked
  refine ⟨s, d, hs, hon, hd, hlength.trans ?_, layout_isLabelled hs hd⟩
  have hnumeral : Painter.positiveNumeral? (ε := Empty) (some "x")
      (.var (some "x") (some 0) false) = none := by decide
  simp [identity, Painter.captions, Painter.noted, LayoutSettings.painter, hon, hnumeral]

end Tromp
