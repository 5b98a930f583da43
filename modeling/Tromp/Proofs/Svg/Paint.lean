import Tromp.Proofs.Drawing.Colours
import Tromp.Proofs.Svg.ReadBack

/-!
# The reader does not see paint

Of a document the reader looks at the names of elements, at transforms, at the ends of lines and at
the size of the canvas.  The two attributes that a picture writes colours into are not among these,
so an element can be given other colours and is read alike (`LineArt.ofRoot_unpainted`).

What is read of a picture has, in these two attributes, whatever its colours stand for, and nothing
else of it depends on them.  So pictures of drawings that differ in colours only are read alike, as
long as their colours may stand in an attribute at all (`Sketch.ofMarkup_eq`).
-/

namespace Tromp

open Xml

namespace Xml.Element

/-- The keys of colours. -/
def paintKeys : List String := ["stroke", "fill"]

/-- An attribute without the colour that it may hold. -/
def unpaintAttribute (a : String × String) : String × String :=
  if a.1 ∈ paintKeys then (a.1, "") else a

mutual

/-- The element without colours. -/
def unpainted : Element → Element
  | node name attributes text children =>
    .node name (attributes.map unpaintAttribute) text (unpaintedOf children)

/-- Some elements without colours. -/
def unpaintedOf : List Element → List Element
  | [] => []
  | e :: rest => e.unpainted :: unpaintedOf rest

end

theorem unpaintedOf_eq_map (es : List Element) : unpaintedOf es = es.map unpainted := by
  induction es with
  | nil => rfl
  | cons e es ih => rw [unpaintedOf, ih, List.map_cons]

theorem lookup_unpaintAttribute {key : String} (hkey : key ∉ paintKeys)
    (as : List (String × String)) : (as.map unpaintAttribute).lookup key = as.lookup key := by
  induction as with
  | nil => rfl
  | cons a as ih =>
      obtain ⟨k, v⟩ := a
      rw [List.map_cons, unpaintAttribute]
      split
      next hpaint =>
          have hne : (key == k) = false := by
            rw [beq_eq_false_iff_ne]
            rintro rfl
            exact hkey hpaint
          simp [List.lookup_cons, hne, ih]
      next => simp [List.lookup_cons, ih]

/-- Attributes other than colours stay. -/
theorem attribute?_unpainted (e : Element) {key : String} (hkey : key ∉ paintKeys) :
    e.unpainted.attribute? key = e.attribute? key := by
  cases e with
  | node name as text children => exact lookup_unpaintAttribute hkey as

theorem localName_unpainted (e : Element) : e.unpainted.localName = e.localName := by
  cases e
  rfl

end Xml.Element

namespace Svg

/-- What is met, without colours. -/
def Visit.unpainted : Visit → Visit
  | .malformed transform => .malformed transform
  | .line e dx dy => .line e.unpainted dx dy

theorem translationIn_unpainted (e : Element) (dx dy : Number) :
    translationIn e.unpainted dx dy = translationIn e dx dy := by
  unfold translationIn
  rw [e.attribute?_unpainted (by decide)]

/-- All that an element itself gives to the walk is a transform that cannot be read. -/
theorem map_unpainted_translationIn (e : Element) (dx dy : Number) :
    (translationIn e dx dy).2.map Visit.unpainted = (translationIn e dx dy).2 := by
  unfold translationIn
  split <;> rfl

mutual

/-- **The walk does not depend on colours.** -/
theorem visits_unpainted (dx dy : Number) (e : Element) :
    visits dx dy e.unpainted = (visits dx dy e).map Visit.unpainted := by
  cases e with
  | node name as text children =>
      have hin := translationIn_unpainted (.node name as text children) dx dy
      have hname := Element.localName_unpainted (.node name as text children)
      have hfound := map_unpainted_translationIn (.node name as text children) dx dy
      have hchildren := visitsOf_unpainted (translationIn (.node name as text children) dx dy).1.1
        (translationIn (.node name as text children) dx dy).1.2 children
      rw [Element.unpainted] at hin hname ⊢
      simp only [visits, hin, hname, List.map_append, hfound, hchildren]
      split <;> rfl

theorem visitsOf_unpainted (dx dy : Number) (es : List Element) :
    visitsOf dx dy (Element.unpaintedOf es) = (visitsOf dx dy es).map Visit.unpainted := by
  cases es with
  | nil => rfl
  | cons e es =>
      rw [Element.unpaintedOf, visitsOf, visitsOf, visits_unpainted dx dy e,
        visitsOf_unpainted dx dy es, List.map_append]

end

theorem coordinateOf_unpainted (e : Element) {key : String} (hkey : key ∉ Element.paintKeys) :
    coordinateOf e.unpainted key = coordinateOf e key := by
  unfold coordinateOf
  rw [e.attribute?_unpainted hkey]

theorem endsOf_unpainted (e : Element) (dx dy : Number) :
    endsOf e.unpainted dx dy = endsOf e dx dy := by
  unfold endsOf
  rw [coordinateOf_unpainted e (by decide), coordinateOf_unpainted e (by decide),
    coordinateOf_unpainted e (by decide), coordinateOf_unpainted e (by decide)]

theorem outcomes_unpainted (index : Nat) (vs : List Visit) :
    outcomes index (vs.map Visit.unpainted) = outcomes index vs := by
  induction vs generalizing index with
  | nil => rfl
  | cons v vs ih =>
      cases v with
      | malformed transform => rw [List.map_cons, Visit.unpainted, outcomes, outcomes, ih]
      | line e dx dy =>
          rw [List.map_cons, Visit.unpainted, outcomes, outcomes, ih, endsOf_unpainted]

/-- No document that is read is reported to be unreadable. -/
theorem unreadable_not_mem_readLines (root : Element) : .unreadable ∉ (readLines root).2 := by
  have hnone : ∀ index vs, Except.error Warning.unreadable ∉ outcomes index vs := by
    intro index vs h
    induction vs generalizing index with
    | nil => cases h
    | cons v vs ih =>
        cases v with
        | malformed transform =>
            rcases List.mem_cons.mp h with hfirst | hrest
            · cases hfirst
            · exact ih _ hrest
        | line e dx dy =>
            rcases List.mem_cons.mp h with hfirst | hrest
            · cases hends : endsOf e dx dy <;> rw [hends] at hfirst <;> cases hfirst
            · exact ih _ hrest
  intro h
  obtain ⟨outcome, hmem, hwarning⟩ := List.mem_filterMap.mp h
  cases outcome with
  | ok ends => cases hwarning
  | error w =>
      obtain rfl := Option.some.inj hwarning
      exact hnone _ _ hmem

end Svg

/-- **The reader does not see paint.** -/
theorem LineArt.ofRoot_unpainted (root : Element) : ofRoot root.unpainted = ofRoot root := by
  have hread : Svg.readLines root.unpainted = Svg.readLines root := by
    unfold Svg.readLines
    rw [Svg.visits_unpainted, Svg.outcomes_unpainted]
  unfold ofRoot
  rw [hread, root.attribute?_unpainted (by decide), root.attribute?_unpainted (by decide)]

/-! ### Pictures in other colours -/

/-- The settings without their colours. -/
def RenderSettings.withoutColors {α : Type} (s : RenderSettings α) : RenderSettings α :=
  { s with toLayoutSettings := s.toLayoutSettings.withoutColors, backgroundColor := "" }

/-- The colours of some settings. -/
def RenderSettings.allColors {α : Type} (s : RenderSettings α) : List String :=
  s.backgroundColor :: s.toLayoutSettings.allColors

/-- What is seen of primitives loses its colour with them, if that is so for each of them. -/
theorem Primitive.filterMap_withoutColor {α β : Type} {view : Primitive α → Option β}
    {strip : β → β} (h : ∀ q, view q.withoutColor = (view q).map strip) (ps : List (Primitive α)) :
    (ps.map withoutColor).filterMap view = (ps.filterMap view).map strip := by
  rw [List.filterMap_map, List.map_filterMap]
  exact congrArg (ps.filterMap ·) (funext h)

/-- Colours take no room. -/
theorem Primitive.bounds_withoutColor {α : Type} [Scalar α] (q : Primitive α) :
    q.withoutColor.bounds = q.bounds := by
  cases q <;> rfl

namespace Fragment

variable {α : Type} [Scalar α] (f : Fragment α)

theorem segments_withoutColors : f.withoutColors.segments = f.segments.map Segment.withoutColor := by
  refine Primitive.filterMap_withoutColor ?_ f.primitives
  intro q
  cases q <;> rfl

theorem dots_withoutColors : f.withoutColors.dots = f.dots.map Dot.withoutColor := by
  refine Primitive.filterMap_withoutColor ?_ f.primitives
  intro q
  cases q <;> rfl

theorem labels_withoutColors : f.withoutColors.labels = f.labels.map Label.withoutColor := by
  refine Primitive.filterMap_withoutColor ?_ f.primitives
  intro q
  cases q <;> rfl

theorem bounds_withoutColors : f.withoutColors.bounds = f.bounds := by
  simp only [bounds, withoutColors, List.foldl_map, Primitive.bounds_withoutColor]

/-- So they do not move a drawing on its canvas. -/
theorem offset_withoutColors (s : RenderSettings α) :
    s.withoutColors.offset f.withoutColors = s.offset f := by
  unfold RenderSettings.offset
  rw [bounds_withoutColors]
  rfl

theorem offsetNumbers_withoutColors (s : RenderSettings α) :
    s.withoutColors.offsetNumbers f.withoutColors = s.offsetNumbers f := by
  have hbounds : f.withoutColors.primitives.flatMap (·.bounds.numbers) =
      f.primitives.flatMap (·.bounds.numbers) := by
    simp only [withoutColors, List.flatMap_map, Primitive.bounds_withoutColor]
  rw [RenderSettings.offsetNumbers, RenderSettings.offsetNumbers, hbounds, offset_withoutColors]

theorem writtenNumbers_withoutColors (s : RenderSettings α) :
    s.withoutColors.writtenNumbers f.withoutColors = s.writtenNumbers f := by
  rw [RenderSettings.writtenNumbers, RenderSettings.writtenNumbers, numbers_withoutColors,
    offset_withoutColors]
  rfl

end Fragment

/-- Nor do they keep a fragment from its picture. -/
theorem renderFault?_withoutColors (s : RenderSettings Number) (f : Fragment Number) :
    renderFault? s.withoutColors f.withoutColors = renderFault? s f := by
  have hchecked : f.withoutColors.checked = f.checked.withoutColors := by
    have hcolor : ∀ q : Primitive Number,
        (q.withoutColor.map .ok : Primitive Checked) = (q.map .ok).withoutColor := by
      intro q
      cases q <;> rfl
    simp only [Fragment.checked, Fragment.map, Fragment.withoutColors, List.map_map,
      Function.comp_def, hcolor]
  have hoverflow : offsetOverflow? s.withoutColors f.withoutColors = offsetOverflow? s f := by
    unfold offsetOverflow?
    rw [hchecked]
    exact congrArg Checked.overflow? (f.checked.offsetNumbers_withoutColors s.checked)
  rw [renderFault?, renderFault?, hoverflow, f.writtenNumbers_withoutColors]

/-- What is read of an element, without its colours. -/
def Xml.Element.readUnpainted (e : Element) : Element := e.read.unpainted

section Pictures

variable (s : RenderSettings Number) (f : Fragment Number)

theorem Segment.readUnpainted_withoutColor (g : Segment Number) :
    g.withoutColor.element.readUnpainted = g.element.readUnpainted := by
  unfold Segment.element Element.readUnpainted
  cases hround : g.rounded <;>
    simp [Segment.withoutColor, hround, Element.read, Element.unpainted, readAttribute,
      Element.unpaintAttribute, Element.paintKeys]

theorem Dot.readUnpainted_withoutColor (d : Dot Number) :
    d.withoutColor.element.readUnpainted = d.element.readUnpainted := by
  simp [Dot.element, Element.readUnpainted, Dot.withoutColor, Element.read, Element.unpainted,
    readAttribute, Element.unpaintAttribute, Element.paintKeys]

theorem Label.readUnpainted_withoutColor (l : Label Number) :
    l.withoutColor.element.readUnpainted = l.element.readUnpainted := by
  simp [Label.element, Element.readUnpainted, Label.withoutColor, Element.read, Element.unpainted,
    readAttribute, Element.unpaintAttribute, Element.paintKeys]

theorem Fragment.readUnpainted_elements :
    f.withoutColors.elements.map Element.readUnpainted =
      f.elements.map Element.readUnpainted := by
  simp only [elements, segments_withoutColors, dots_withoutColors, labels_withoutColors,
    List.map_append, List.map_map, Function.comp_def, Segment.readUnpainted_withoutColor,
    Dot.readUnpainted_withoutColor, Label.readUnpainted_withoutColor]

namespace Picture

theorem readUnpainted_background :
    (background s.withoutColors).readUnpainted = (background s).readUnpainted := by
  simp [background, size, RenderSettings.withoutColors, LayoutSettings.withoutColors,
    Element.readUnpainted, Element.read, Element.unpainted, readAttribute,
    Element.unpaintAttribute, Element.paintKeys]

theorem readUnpainted_group :
    (group s.withoutColors f.withoutColors).readUnpainted = (group s f).readUnpainted := by
  have htransform : transform s.withoutColors f.withoutColors = transform s f :=
    congrArg (fun v : Number × Number =>
      "translate(" ++ Svg.coordinate v.1 ++ " " ++ Svg.coordinate v.2 ++ ")")
      (f.offset_withoutColors s)
  have hgroup : group s.withoutColors f.withoutColors =
      .node "g" [("transform", transform s f)] "" f.withoutColors.elements :=
    congrArg (fun t => Element.node "g" [("transform", t)] "" f.withoutColors.elements) htransform
  have helements := f.readUnpainted_elements
  unfold Element.readUnpainted at helements ⊢
  rw [hgroup, group, Element.read, Element.read, Element.unpainted, Element.unpainted,
    Element.readOf_eq_map, Element.readOf_eq_map, Element.unpaintedOf_eq_map,
    Element.unpaintedOf_eq_map]
  simp only [List.map_map]
  exact congrArg _ helements

/-- **What is read of a picture** depends on its colours in the attributes for colours alone. -/
theorem readUnpainted_root :
    (ofFragment s.withoutColors f.withoutColors).root.readUnpainted =
      (ofFragment s f).root.readUnpainted := by
  have hbackground := readUnpainted_background s
  have hgroup := readUnpainted_group s f
  unfold Element.readUnpainted at hbackground hgroup ⊢
  simp only [ofFragment, Element.read, Element.readOf, Element.unpainted, Element.unpaintedOf,
    hbackground, hgroup]
  rfl

end Picture

/-- **Pictures in other colours have one sketch**, as long as all colours may stand in attributes. -/
theorem Sketch.ofMarkup_eq {s s' : RenderSettings Number} {f f' : Fragment Number}
    (hs : s.withoutColors = s'.withoutColors) (hf : f.withoutColors = f'.withoutColors)
    (h : Picture.HasTexts Legible s f) (h' : Picture.HasTexts Legible s' f')
    (terminal : Option Int) :
    ofMarkup (Picture.ofFragment s f).markup terminal =
      ofMarkup (Picture.ofFragment s' f').markup terminal := by
  have hart : LineArt.ofRoot (Picture.ofFragment s f).root.read =
      LineArt.ofRoot (Picture.ofFragment s' f').root.read := by
    rw [← LineArt.ofRoot_unpainted, ← LineArt.ofRoot_unpainted (Picture.ofFragment s' f').root.read]
    exact congrArg LineArt.ofRoot ((Picture.readUnpainted_root s f).symm.trans
      (hs ▸ hf ▸ Picture.readUnpainted_root s' f'))
  have hread := root?_print (Picture.formed_root (fun _ => Inert.legible) h)
  have hread' := root?_print (Picture.formed_root (fun _ => Inert.legible) h')
  simp only [ofMarkup, LineArt.ofMarkup?, Picture.markup, hread, hread', Option.map_some, hart]

/-- A picture whose colours may stand in attributes is never reported to be unreadable. -/
theorem Sketch.unreadable_not_mem_warnings {s : RenderSettings Number} {f : Fragment Number}
    (h : Picture.HasTexts Legible s f) {terminal : Option Int} {sketch : Sketch}
    (hsketch : ofMarkup (Picture.ofFragment s f).markup terminal = .ok sketch) :
    .unreadable ∉ sketch.warnings := by
  have hread := root?_print (Picture.formed_root (fun _ => Inert.legible) h)
  simp only [ofMarkup, LineArt.ofMarkup?, Picture.markup, hread, Option.map_some] at hsketch
  cases hgrid : (LineArt.ofRoot (Picture.ofFragment s f).root.read).grid? terminal with
  | error fault =>
      rw [hgrid] at hsketch
      cases hsketch
  | ok grid =>
      rw [hgrid] at hsketch
      rw [← Except.ok.inj hsketch]
      exact Svg.unreadable_not_mem_readLines _

end Pictures

end Tromp
