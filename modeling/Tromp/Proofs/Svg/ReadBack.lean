import Tromp.Grid.Sketch
import Tromp.Proofs.Arithmetic.Zeros
import Tromp.Proofs.Settings.Accepted
import Tromp.Proofs.Svg.Attributes
import Tromp.Proofs.Svg.Rendering
import Tromp.Proofs.Xml.RoundTrip
import Tromp.Text.Printable

/-!
# Pictures are read back

The writer of pictures and the reader of lines know nothing of each other; they meet at the element
that is printed.  The first half is that the text of a picture is read back as its element: colours
and labels hold no markup, and the texts of numbers never do.  The second half is that a walk through
that element meets the segments of the fragment, in their order and nothing else, each under one and
the same translation.

What the reader adds to a coordinate is not the written translation itself but a sum of it with
zeros, one for each element on the way.  That can cost the sign of a zero, so the ends of a line are
equal to the written ones as numbers are.

Only what the writer writes is read.  Where a whole number overflows on the way to the canvas or is
too long there is no picture; moderate fragments always have one.  And nothing is promised where the
sum of a coordinate and the translation overflows: the reader skips a line whose ends are not finite,
and takes a canvas without a finite size for the usual one.
-/

namespace Tromp

open Xml

/-- A printable text without the characters of markup. -/
def IsPlainText (s : String) : Prop :=
  ∀ c ∈ s.toList, isPrintable c = true ∧ c ∉ ['&', '<', '>', '"']

-- Only the characters of the text are looked at, though there are finitely many characters at all.
instance : DecidablePred IsPlainText := fun _ => List.decidableBAll _ _

/-- Whether the text of a number reads as the nearest double. -/
def Number.ReadsBack (a : Number) : Prop := readDouble? a.text = some a.toFloat

instance : DecidablePred Number.ReadsBack := fun _ => inferInstanceAs (Decidable (_ = _))

/-- The ends of a segment that is moved by a vector, with both rounded to the thousandth. -/
def Segment.movedEnds (v : Number × Number) (g : Segment Number) : Ends Float where
  x1 := g.x1.thousandths.toFloat + v.1.thousandths.toFloat
  y1 := g.y1.thousandths.toFloat + v.2.thousandths.toFloat
  x2 := g.x2.thousandths.toFloat + v.1.thousandths.toFloat
  y2 := g.y2.thousandths.toFloat + v.2.thousandths.toFloat

/-- Whether the ends of a line are finite. -/
def Ends.AreFinite (e : Ends Float) : Prop :=
  e.x1.isFinite = true ∧ e.y1.isFinite = true ∧ e.x2.isFinite = true ∧ e.y2.isFinite = true

instance : DecidablePred Ends.AreFinite := fun _ => inferInstanceAs (Decidable (_ ∧ _))

/-- Whether the ends of a line are some doubles, zeros of either sign being equal. -/
def Ends.Are (e : Ends Number) (d : Ends Float) : Prop :=
  (e.x1.toFloat == d.x1) = true ∧ (e.y1.toFloat == d.y1) = true ∧
    (e.x2.toFloat == d.x2) = true ∧ (e.y2.toFloat == d.y2) = true

/-- The texts of a picture hold no markup. -/
structure Picture.HasPlainTexts (s : RenderSettings Number) (f : Fragment Number) : Prop where
  background : IsPlainText s.backgroundColor
  segments : ∀ g ∈ f.segments, IsPlainText g.color
  dots : ∀ d ∈ f.dots, IsPlainText d.color
  labels : ∀ l ∈ f.labels, IsPlainText l.color ∧ IsPlainText l.text

/-- Reading inverts the printing of the numbers of a picture that are read. -/
structure Picture.ReadsNumbers (s : RenderSettings Number) (f : Fragment Number) : Prop where
  width : s.width.ReadsBack
  height : s.height.ReadsBack
  offset : (s.offset f).1.thousandths.ReadsBack ∧ (s.offset f).2.thousandths.ReadsBack
  segments : ∀ g ∈ f.segments, g.x1.thousandths.ReadsBack ∧ g.y1.thousandths.ReadsBack ∧
    g.x2.thousandths.ReadsBack ∧ g.y2.thousandths.ReadsBack

instance (s : RenderSettings Number) (f : Fragment Number) :
    Decidable (Picture.HasPlainTexts s f) :=
  decidable_of_iff (IsPlainText s.backgroundColor ∧ (∀ g ∈ f.segments, IsPlainText g.color) ∧
      (∀ d ∈ f.dots, IsPlainText d.color) ∧
      ∀ l ∈ f.labels, IsPlainText l.color ∧ IsPlainText l.text)
    ⟨fun h => ⟨h.1, h.2.1, h.2.2.1, h.2.2.2⟩,
      fun h => ⟨h.background, h.segments, h.dots, h.labels⟩⟩

instance (s : RenderSettings Number) (f : Fragment Number) :
    Decidable (Picture.ReadsNumbers s f) :=
  decidable_of_iff (s.width.ReadsBack ∧ s.height.ReadsBack ∧
      ((s.offset f).1.thousandths.ReadsBack ∧ (s.offset f).2.thousandths.ReadsBack) ∧
      ∀ g ∈ f.segments, g.x1.thousandths.ReadsBack ∧ g.y1.thousandths.ReadsBack ∧
        g.x2.thousandths.ReadsBack ∧ g.y2.thousandths.ReadsBack)
    ⟨fun h => ⟨h.1, h.2.1, h.2.2.1, h.2.2.2⟩,
      fun h => ⟨h.width, h.height, h.offset, h.segments⟩⟩

/-! ### The text of a picture -/

/-- The code points of printable characters. -/
theorem bounds_of_isPrintable {c : Char} (h : isPrintable c = true) :
    32 ≤ c.toNat ∧ c.toNat ≠ 0xFFFE ∧ c.toNat ≠ 0xFFFF := by
  have hranges : ∀ r ∈ printableRanges, 32 ≤ r.1 ∧ (r.2 < 0xFFFE ∨ 0xFFFF < r.1) := by
    decide +kernel
  obtain ⟨r, hr, hin⟩ := List.any_eq_true.mp h
  have hbounds := hranges r hr
  simp only [Bool.and_eq_true, decide_eq_true_eq] at hin
  omega

/-- Plain texts hold characters that stand for themselves. -/
theorem IsPlainText.inert {s : String} (h : IsPlainText s) : Inert s := by
  intro c hc
  obtain ⟨hprintable, hmarkup⟩ := h c hc
  have hbounds := bounds_of_isPrintable hprintable
  have hdocument : isDocumentChar c = true := by
    unfold isDocumentChar
    simp only [Bool.or_eq_true, Bool.and_eq_true, beq_iff_eq, decide_eq_true_eq, bne_iff_ne]
    omega
  have hspace : c = ' ' ∨ isSpace c = false := by
    by_cases hblank : c = ' '
    · exact Or.inl hblank
    · refine Or.inr ?_
      have hne : ∀ d : Char, d.toNat < 32 → c ≠ d := by
        rintro d hd rfl
        omega
      simp [isSpace, hblank, hne '\t' (by decide), hne '\n' (by decide), hne '\r' (by decide)]
  simp only [List.mem_cons, List.not_mem_nil, or_false, not_or] at hmarkup
  simp [isInert, hdocument, hspace, hmarkup]

/-- The texts of numbers hold characters that stand for themselves. -/
theorem Number.inert_text (a : Number) : Inert a.text := by
  intro c hc
  have hall : numeralChars.all isInert = true := by decide
  exact List.all_eq_true.mp hall c (a.text_subset hc)

theorem inert_coordinate (x : Number) : Inert (Svg.coordinate x) := Number.inert_text x.thousandths

theorem inert_empty : Inert "" := by simp [Inert]

theorem inert_of_all {s : String} (h : s.toList.all isInert = true) : Inert s :=
  List.all_eq_true.mp h

theorem inert_append {s t : String} (hs : Inert s) (ht : Inert t) : Inert (s ++ t) := by
  intro c hc
  rw [String.toList_append] at hc
  rcases List.mem_append.mp hc with h | h
  · exact hs c h
  · exact ht c h

namespace Picture

/-- The colours of a picture are of some kind, and its labels hold no markup. -/
structure HasTexts (V : String → Prop) (s : RenderSettings Number) (f : Fragment Number) : Prop where
  background : V s.backgroundColor
  segments : ∀ g ∈ f.segments, V g.color
  dots : ∀ d ∈ f.dots, V d.color
  labels : ∀ l ∈ f.labels, V l.color ∧ Inert l.text

variable {s : RenderSettings Number} {f : Fragment Number}

theorem HasPlainTexts.hasTexts (h : HasPlainTexts s f) : HasTexts Inert s f where
  background := h.background.inert
  segments g hg := (h.segments g hg).inert
  dots d hd := (h.dots d hd).inert
  labels l hl := ⟨(h.labels l hl).1.inert, (h.labels l hl).2.inert⟩

/-- The keys of the outermost element are plain. -/
theorem plain_keys_root (s : RenderSettings Number) (f : Fragment Number) :
    ∀ a ∈ (ofFragment s f).root.attributes, isPlainName a.1.toList = true := by
  simp [ofFragment, Element.attributes, size]
  decide

/-- Its values are numbers and words. -/
theorem inert_values_root (s : RenderSettings Number) (f : Fragment Number) :
    ∀ a ∈ (ofFragment s f).root.attributes, Inert a.2 := by
  have hspace : Inert "http://www.w3.org/2000/svg" := inert_of_all (by decide)
  have hviewBox : Inert ("0 0 " ++ s.width.text ++ " " ++ s.height.text) := by
    refine inert_append (inert_append (inert_append ?_ (Number.inert_text _)) ?_)
      (Number.inert_text _)
    · exact inert_of_all (by decide)
    · exact inert_of_all (by decide)
  simp [ofFragment, Element.attributes, size, hspace, hviewBox, Number.inert_text]

section Formed

/-! Everything that a picture writes into its attributes stands for itself, but for its colours. -/

variable {V : String → Prop} (hV : ∀ s, Inert s → V s)

include hV

theorem formed_segment {g : Segment Number} (h : V g.color) : g.element.Formed V := by
  have hnumber := fun x => hV _ (inert_coordinate x)
  have hcap : V "round" := hV _ (inert_of_all (by decide))
  unfold Segment.element
  refine .node (by decide) ?_ ?_ ?_ ?_ inert_empty (by simp)
  · cases g.rounded <;> simp <;> decide
  · cases g.rounded <;> simp [h, hnumber, hcap]
  · cases g.rounded <;> simp
  · cases g.rounded <;> simp

theorem formed_dot {d : Dot Number} (h : V d.color) : d.element.Formed V := by
  have hnumber := fun x => hV _ (inert_coordinate x)
  unfold Dot.element
  refine .node (by decide) ?_ ?_ (by simp) (by simp) inert_empty (by simp)
  · simp
    decide
  · simp [h, hnumber]

theorem formed_label {l : Label Number} (h : V l.color ∧ Inert l.text) : l.element.Formed V := by
  have hnumber := fun x => hV _ (inert_coordinate x)
  have hsize := hV _ (Number.inert_text l.fontSize)
  have hwords : V "monospace" ∧ V "bold" :=
    ⟨hV _ (inert_of_all (by decide)), hV _ (inert_of_all (by decide))⟩
  unfold Label.element
  refine .node (by decide) ?_ ?_ (by simp) (by simp) h.2 (by simp)
  · simp
    decide
  · simp [h.1, hnumber, hwords, hsize]

theorem formed_elements (h : HasTexts V s f) : ∀ e ∈ f.elements, e.Formed V := by
  intro e he
  simp only [Fragment.elements, List.mem_append, List.mem_map] at he
  rcases he with (⟨g, hg, rfl⟩ | ⟨d, hd, rfl⟩) | ⟨l, hl, rfl⟩
  · exact formed_segment hV (h.segments g hg)
  · exact formed_dot hV (h.dots d hd)
  · exact formed_label hV (h.labels l hl)

theorem formed_background (h : V s.backgroundColor) : (background s).Formed V := by
  have hnumber := fun x => hV _ (Number.inert_text x)
  unfold background size
  refine .node (by decide) ?_ ?_ (by simp) (by simp) inert_empty (by simp)
  · simp
    decide
  · simp [hnumber, h]

theorem formed_group (h : HasTexts V s f) : (group s f).Formed V := by
  have htransform : Inert (transform s f) := by
    refine inert_append (inert_append (inert_append (inert_append ?_ ?_) ?_) ?_) ?_
    · exact inert_of_all (by decide)
    · exact Number.inert_text _
    · exact inert_of_all (by decide)
    · exact Number.inert_text _
    · exact inert_of_all (by decide)
  unfold group
  refine .node (by decide) ?_ ?_ (by simp) (by simp) inert_empty (formed_elements hV h)
  · simp
    decide
  · simpa using hV _ htransform

/-- The element of a picture holds no markup but its own. -/
theorem formed_root (h : HasTexts V s f) : (ofFragment s f).root.Formed V := by
  have hspace : Inert "http://www.w3.org/2000/svg" := inert_of_all (by decide)
  have hbound : Bindings.allowed "" "http://www.w3.org/2000/svg" = true := by decide
  refine .node (by decide) (plain_keys_root s f) (fun a ha => hV _ (inert_values_root s f a ha))
    ?_ ?_ inert_empty ?_
  · simp [size]
  · simpa [size] using ⟨hspace, hbound⟩
  · intro e he
    simp only [List.mem_cons, List.not_mem_nil, or_false] at he
    rcases he with rfl | rfl
    · exact formed_background hV h.background
    · exact formed_group hV h

end Formed

/-- **The text of a picture is read back as its element.** -/
theorem root?_markup (h : HasPlainTexts s f) :
    root? (ofFragment s f).markup = some (ofFragment s f).root :=
  root?_print_plain (formed_root (fun _ => id) h.hasTexts)

/-- The lines of a picture are those below its element. -/
theorem ofMarkup?_markup (h : HasPlainTexts s f) :
    LineArt.ofMarkup? (ofFragment s f).markup = some (.ofRoot (ofFragment s f).root) := by
  rw [LineArt.ofMarkup?, root?_markup h]
  rfl

end Picture

/-! ### The walk through a picture -/

namespace Svg

/-- What a translation adds up to on the way to a line: a sum with one zero for the root, one that
the operands of the transform are added to, and one for the line itself. -/
def carried (d : Float) : Float := 0.0 + 0.0 + (0.0 + d) + 0.0

/-- A translation arrives as it is written, up to the sign of a zero. -/
theorem carried_eq_or (d : Float) : carried d = d ∨ d = -0 ∧ carried d = 0 := by
  by_cases hd : d = -0
  · subst hd
    exact Or.inr ⟨rfl, rfl⟩
  · refine Or.inl ?_
    change 0 + (0 + d) + 0 = d
    rw [zero_add_of_ne hd, zero_add_of_ne hd, add_zero_of_ne hd]

/-- So where it is added, the sum is the same number. -/
theorem add_carried {x d : Float} (h : (x + d).isFinite = true) :
    (x + carried d).isFinite = true ∧ (x + carried d == x + d) = true := by
  rcases carried_eq_or d with heq | ⟨rfl, hzero⟩
  · rw [heq]
    exact ⟨h, Float.beq_self_iff.mpr (ne_nan_of_isFinite h)⟩
  · rw [hzero]
    exact add_zero_beq_add_negZero h

variable {dx dy : Number} {a b : Float}

/-- An element without a transform adds zeros. -/
theorem translationIn_of_none {e : Element} (h : e.attribute? "transform" = none) :
    translationIn e (.real a) (.real b) = ((.real (a + 0.0), .real (b + 0.0)), []) := by
  unfold translationIn
  rw [h]
  rfl

/-- Of an element that is no line, what is inside it is met. -/
theorem visits_node {name text : String} {as : List (String × String)} {children : List Element}
    {dx' dy' : Number}
    (hin : translationIn (.node name as text children) dx dy = ((dx', dy'), []))
    (hname : Element.localName.afterColon name.toList ≠ "line".toList) :
    visits dx dy (.node name as text children) = visitsOf dx' dy' children := by
  have hnot : Element.localName (.node name as text children) ≠ "line" := by
    intro h
    refine hname ?_
    rw [← h, Element.localName, String.toList_ofList]
    rfl
  simp only [visits, hin, if_neg hnot, List.nil_append]

/-- A segment is met as a line. -/
theorem visits_segment (g : Segment Number) :
    visits (.real a) (.real b) g.element =
      [.line g.element (.real (a + 0.0)) (.real (b + 0.0))] := by
  have hnone : g.element.attribute? "transform" = none := by
    unfold Segment.element
    cases g.rounded <;> rfl
  have hline : g.element.localName = "line" := by
    change String.ofList (Element.localName.afterColon "line".toList) = "line"
    decide
  have hin := translationIn_of_none (a := a) (b := b) hnone
  unfold Segment.element at hin hline ⊢
  simp only [visits, hin, if_pos hline, visitsOf, List.nil_append, List.append_nil]

/-- Dots and labels are passed by. -/
theorem visits_dot (d : Dot Number) : visits (.real a) (.real b) d.element = [] :=
  visits_node (translationIn_of_none rfl) (by decide)

theorem visits_label (l : Label Number) : visits (.real a) (.real b) l.element = [] :=
  visits_node (translationIn_of_none rfl) (by decide)

theorem visitsOf_append (es ds : List Element) :
    visitsOf dx dy (es ++ ds) = visitsOf dx dy es ++ visitsOf dx dy ds := by
  induction es with
  | nil => rfl
  | cons e es ih => simp [visitsOf, ih]

theorem visitsOf_eq_nil {es : List Element} (h : ∀ e ∈ es, visits dx dy e = []) :
    visitsOf dx dy es = [] := by
  induction es with
  | nil => rfl
  | cons e es ih =>
      simp [visitsOf, h e List.mem_cons_self, ih fun d hd => h d (List.mem_cons_of_mem _ hd)]

/-- **The elements of a fragment are met as its segments**, whatever dots and labels there are. -/
theorem visitsOf_elements (f : Fragment Number) :
    visitsOf (.real a) (.real b) f.elements =
      f.segments.map fun g => .line g.element (.real (a + 0.0)) (.real (b + 0.0)) := by
  have hsegments : ∀ gs : List (Segment Number),
      visitsOf (.real a) (.real b) (gs.map Segment.element) =
        gs.map fun g => .line g.element (.real (a + 0.0)) (.real (b + 0.0)) := by
    intro gs
    induction gs with
    | nil => rfl
    | cons g gs ih => simp [visitsOf, visits_segment, ih]
  have hdots : visitsOf (.real a) (.real b) (f.dots.map Dot.element) = [] := by
    refine visitsOf_eq_nil ?_
    intro e he
    obtain ⟨d, -, rfl⟩ := List.mem_map.mp he
    exact visits_dot d
  have hlabels : visitsOf (.real a) (.real b) (f.labels.map Label.element) = [] := by
    refine visitsOf_eq_nil ?_
    intro e he
    obtain ⟨l, -, rfl⟩ := List.mem_map.mp he
    exact visits_label l
  rw [Fragment.elements, visitsOf_append, visitsOf_append, hsegments, hdots, hlabels,
    List.append_nil, List.append_nil]

/-- A coordinate that reads back. -/
theorem coordinateOf_eq {e : Element} {key : String} {x : Number} (h : x.thousandths.ReadsBack)
    (he : e.attribute? key = some (coordinate x)) :
    coordinateOf e key = .ok (.real x.thousandths.toFloat) := by
  have hread : parseDouble (coordinate x) = .ok x.thousandths.toFloat := by
    unfold parseDouble coordinate
    rw [h]
  unfold coordinateOf
  rw [he]
  simp only [hread]
  rfl

variable {v : Number × Number}

/-- What is met of a segment that is moved by a vector. -/
def lineVisit (v : Number × Number) (g : Segment Number) : Visit :=
  .line g.element (.real (carried v.1.thousandths.toFloat)) (.real (carried v.2.thousandths.toFloat))

/-- The ends of a line are read where its segment is moved to. -/
theorem exists_endsOf {g : Segment Number}
    (hreads : g.x1.thousandths.ReadsBack ∧ g.y1.thousandths.ReadsBack ∧
      g.x2.thousandths.ReadsBack ∧ g.y2.thousandths.ReadsBack)
    (hfinite : (g.movedEnds v).AreFinite) :
    ∃ ends, endsOf g.element (.real (carried v.1.thousandths.toFloat))
      (.real (carried v.2.thousandths.toFloat)) = .ok ends ∧ ends.Are (g.movedEnds v) := by
  have hattributes : g.element.attribute? "x1" = some (coordinate g.x1) ∧
      g.element.attribute? "y1" = some (coordinate g.y1) ∧
      g.element.attribute? "x2" = some (coordinate g.x2) ∧
      g.element.attribute? "y2" = some (coordinate g.y2) := by
    unfold Segment.element
    cases g.rounded <;> exact ⟨rfl, rfl, rfl, rfl⟩
  have hx1 := coordinateOf_eq hreads.1 hattributes.1
  have hy1 := coordinateOf_eq hreads.2.1 hattributes.2.1
  have hx2 := coordinateOf_eq hreads.2.2.1 hattributes.2.2.1
  have hy2 := coordinateOf_eq hreads.2.2.2 hattributes.2.2.2
  obtain ⟨hfx1, hex1⟩ := add_carried hfinite.1
  obtain ⟨hfy1, hey1⟩ := add_carried hfinite.2.1
  obtain ⟨hfx2, hex2⟩ := add_carried hfinite.2.2.1
  obtain ⟨hfy2, hey2⟩ := add_carried hfinite.2.2.2
  let tx := carried v.1.thousandths.toFloat
  let ty := carried v.2.thousandths.toFloat
  let ends : Ends Number :=
    ⟨.real (g.x1.thousandths.toFloat + tx), .real (g.y1.thousandths.toFloat + ty),
      .real (g.x2.thousandths.toFloat + tx), .real (g.y2.thousandths.toFloat + ty)⟩
  refine ⟨ends, ?_, hex1, hey1, hex2, hey2⟩
  have hall : [ends.x1, ends.y1, ends.x2, ends.y2].all Number.isFinite = true := by
    simp only [List.all_cons, List.all_nil, Bool.and_true, Bool.and_eq_true]
    exact ⟨hfx1, hfy1, hfx2, hfy2⟩
  unfold endsOf
  rw [hx1, hy1, hx2, hy2]
  exact if_pos hall

/-- Lines that can be read are all read, one after another. -/
theorem exists_outcomes {gs : List (Segment Number)} (index : Nat)
    (h : ∀ g ∈ gs, ∃ ends, endsOf g.element (.real (carried v.1.thousandths.toFloat))
      (.real (carried v.2.thousandths.toFloat)) = .ok ends ∧ ends.Are (g.movedEnds v)) :
    ∃ lines : List (Ends Number), outcomes index (gs.map (lineVisit v)) = lines.map .ok ∧
      List.Forall₂ (fun e g => e.Are (g.movedEnds v)) lines gs := by
  induction gs generalizing index with
  | nil => exact ⟨[], rfl, .nil⟩
  | cons g gs ih =>
      obtain ⟨ends, hends, hare⟩ := h g List.mem_cons_self
      obtain ⟨lines, hlines, hall⟩ := ih (index + 1) fun d hd => h d (List.mem_cons_of_mem _ hd)
      refine ⟨ends :: lines, ?_, .cons hare hall⟩
      rw [List.map_cons, lineVisit, outcomes, hends, hlines]
      rfl

end Svg

namespace Picture

variable {s : RenderSettings Number} {f : Fragment Number}

theorem isClean_text (a : Number) : ∀ c ∈ a.text.toList, isClean c = true :=
  fun _ hc => isClean_of_mem_numeralChars (a.text_subset hc)

/-- The translation that holds in the group. -/
theorem translationIn_group {a b : Float}
    (hoffset : (s.offset f).1.thousandths.ReadsBack ∧ (s.offset f).2.thousandths.ReadsBack) :
    Svg.translationIn (group s f) (.real a) (.real b) =
      ((.real (a + (0.0 + (s.offset f).1.thousandths.toFloat)),
        .real (b + (0.0 + (s.offset f).2.thousandths.toFloat))), []) := by
  have htranslation : Svg.translation (some (transform s f)) = .ok
      (.real (0.0 + (s.offset f).1.thousandths.toFloat),
        .real (0.0 + (s.offset f).2.thousandths.toFloat)) :=
    Svg.translation_translate (isClean_text _) (isClean_text _) hoffset.1 hoffset.2
  have hattribute : (group s f).attribute? "transform" = some (transform s f) := rfl
  unfold Svg.translationIn
  rw [hattribute, htranslation]
  rfl

/-- **The walk through a picture** meets the segments of its fragment, each under the translation
that is written. -/
theorem visits_root
    (hoffset : (s.offset f).1.thousandths.ReadsBack ∧ (s.offset f).2.thousandths.ReadsBack) :
    Svg.visits (.real 0.0) (.real 0.0) (ofFragment s f).root =
      f.segments.map (Svg.lineVisit (s.offset f)) := by
  have hbackground : Svg.visits (.real (0.0 + 0.0)) (.real (0.0 + 0.0)) (background s) = [] :=
    Svg.visits_node (Svg.translationIn_of_none rfl) (by decide)
  have hgroup : Svg.visits (.real (0.0 + 0.0)) (.real (0.0 + 0.0)) (group s f) =
      f.segments.map (Svg.lineVisit (s.offset f)) :=
    (Svg.visits_node (translationIn_group hoffset) (by decide)).trans (Svg.visitsOf_elements f)
  calc Svg.visits (.real 0.0) (.real 0.0) (ofFragment s f).root
      = Svg.visitsOf (.real (0.0 + 0.0)) (.real (0.0 + 0.0)) [background s, group s f] :=
        Svg.visits_node (Svg.translationIn_of_none rfl) (by decide)
    _ = f.segments.map (Svg.lineVisit (s.offset f)) := by
        simp only [Svg.visitsOf, hbackground, hgroup, List.nil_append, List.append_nil]

/-- **The lines of a picture are those of its fragment.**  The size of the canvas and the lines are
read as they were written, in the same order, and nothing is reported. -/
theorem exists_ofMarkup? (texts : HasPlainTexts s f) (numbers : ReadsNumbers s f)
    (width : 0.0 < s.width.toFloat ∧ s.width.toFloat.isFinite = true)
    (height : 0.0 < s.height.toFloat ∧ s.height.toFloat.isFinite = true)
    (finite : ∀ g ∈ f.segments, (g.movedEnds (s.offset f)).AreFinite) :
    ∃ art, LineArt.ofMarkup? (ofFragment s f).markup = some art ∧
      art.width = .real s.width.toFloat ∧ art.height = .real s.height.toFloat ∧
      art.warnings = [] ∧
      List.Forall₂ (fun e g => e.Are (g.movedEnds (s.offset f))) art.lines f.segments := by
  obtain ⟨lines, hlines, hall⟩ := Svg.exists_outcomes 0 fun g hg =>
    Svg.exists_endsOf (numbers.segments g hg) (finite g hg)
  have hread : Svg.readLines (ofFragment s f).root = (lines, []) := by
    unfold Svg.readLines
    rw [visits_root numbers.offset, hlines]
    simp [List.filterMap_map]
  have hwidth : Svg.length ((ofFragment s f).root.attribute? "width") LineArt.defaultWidth =
      .real s.width.toFloat :=
    Svg.length_eq _ (isClean_text s.width) numbers.width width.1 width.2
  have hheight : Svg.length ((ofFragment s f).root.attribute? "height") LineArt.defaultHeight =
      .real s.height.toFloat :=
    Svg.length_eq _ (isClean_text s.height) numbers.height height.1 height.2
  refine ⟨_, ofMarkup?_markup texts, hwidth, hheight, ?_, ?_⟩
  · simp [LineArt.ofRoot, hread]
  · simpa [LineArt.ofRoot, hread] using hall

/-- **Pictures are read back.**  Where a fragment is rendered, the vector that moves it onto its
canvas has not overflowed, the size of the canvas and the lines are read as they were written, in the
same order, and nothing is reported.  A moderate fragment on a moderate canvas is rendered. -/
theorem reads_back (s : RenderSettings Number) (f : Fragment Number) (texts : HasPlainTexts s f)
    (numbers : ReadsNumbers s f)
    (width : 0.0 < s.width.toFloat ∧ s.width.toFloat.isFinite = true)
    (height : 0.0 < s.height.toFloat ∧ s.height.toFloat.isFinite = true)
    (finite : ∀ g ∈ f.segments, (g.movedEnds (s.offset f)).AreFinite) :
    (∀ p, render s f = .ok p →
      s.checked.offset f.checked = (.ok (s.offset f).1, .ok (s.offset f).2) ∧
      ∃ art, LineArt.ofMarkup? p.markup = some art ∧
        art.width = .real s.width.toFloat ∧ art.height = .real s.height.toFloat ∧
        art.warnings = [] ∧
        List.Forall₂ (fun e g => e.Are (g.movedEnds (s.offset f))) art.lines f.segments) ∧
    (s.IsModerate → f.IsModerate → ∃ p, render s f = .ok p) := by
  refine ⟨?_, exists_render⟩
  intro p hp
  obtain ⟨hfault, rfl⟩ := render_eq_ok_iff.mp hp
  exact ⟨RenderSettings.offset_checked (offsetOverflow?_eq_none_of_render hfault),
    exists_ofMarkup? texts numbers width height finite⟩

/-- Lines, dots and labels in any order, with whole numbers and others, on the usual canvas. -/
theorem reads_back_mixed :
    let f : Fragment Number :=
      { width := 1
        height := 1
        stem := 0
        primitives :=
          [.dot ⟨.whole 5, .whole 5, .whole 2, "red"⟩,
            .line ⟨.real (-0.0), .whole 0, .whole 10, .whole 0, "red", .whole 3, true⟩,
            .label ⟨.whole 1, .whole 2, "x y", "grey", .whole 12⟩,
            .line ⟨.real 2.0005, .whole 0, .real 2.0005, .real 1e17, "blue", .real 2.5, false⟩] }
    ∃ s, RenderSettings.build (fun _ => none) = .ok s ∧
      ∃ p, render s f = .ok p ∧ ∃ art, LineArt.ofMarkup? p.markup = some art ∧
        art.width = .real s.width.toFloat ∧ art.height = .real s.height.toFloat ∧
        art.warnings = [] ∧
        List.Forall₂ (fun e g => e.Are (g.movedEnds (s.offset f))) art.lines f.segments := by
  intro f
  have hbuild : ∃ s, RenderSettings.build (fun _ => none) = .ok s ∧
      decide (HasPlainTexts s f ∧ ReadsNumbers s f ∧
        (0.0 < s.width.toFloat ∧ s.width.toFloat.isFinite = true) ∧
        (0.0 < s.height.toFloat ∧ s.height.toFloat.isFinite = true) ∧
        (∀ g ∈ f.segments, (g.movedEnds (s.offset f)).AreFinite) ∧ s.IsModerate ∧
        f.IsModerate) = true :=
    Guard.exists_of_map_toOption (by decide +kernel)
  obtain ⟨s, hs, hall⟩ := hbuild
  obtain ⟨texts, numbers, width, height, finite, settings, fragment⟩ := of_decide_eq_true hall
  obtain ⟨hread, hrendered⟩ := reads_back s f texts numbers width height finite
  obtain ⟨p, hp⟩ := hrendered settings fragment
  exact ⟨s, hs, p, hp, (hread p hp).2⟩

/-- What is not rendered, what is skipped and what is replaced.  A dot can stand so far out that the
vector which would centre it overflows.  A line can be so long that this vector is not finite, though
all numbers of the fragment are; the line is skipped.  And a canvas can be infinitely wide; it is
taken for the usual one. -/
theorem reads_back_overflow :
    (let f : Fragment Number :=
      { width := 1
        height := 1
        stem := 0
        primitives := [.dot ⟨.whole (tenTo 400), .whole 0, .whole 2, "red"⟩] }
     ∃ s, RenderSettings.build (fun _ => none) = .ok s ∧ HasPlainTexts s f ∧
      render s f = .error (.overflow .operand)) ∧
    (let f : Fragment Number :=
      { width := 1
        height := 1
        stem := 0
        primitives :=
          [.line ⟨.real (-1.7e308), .whole 0, .real 1.7e308, .whole 0, "black", .whole 1, false⟩] }
     ∃ s, RenderSettings.build (fun _ => none) = .ok s ∧ HasPlainTexts s f ∧ ReadsNumbers s f ∧
      (∀ g ∈ f.segments, [g.x1, g.y1, g.x2, g.y2, g.width].all Number.isFinite = true) ∧
      ∃ p, render s f = .ok p ∧ ∃ art, LineArt.ofMarkup? p.markup = some art ∧
        art.warnings ≠ [] ∧ art.lines.length ≠ f.segments.length) ∧
    (let f : Fragment Number := { width := 1, height := 1, stem := 0, primitives := [] }
     let given : Field → Option (Value Number) := fun field =>
      if field = .width then some (.number (.real (1.0 / 0.0))) else none
     ∃ s, RenderSettings.build given = .ok s ∧ HasPlainTexts s f ∧ ReadsNumbers s f ∧
      ∃ p, render s f = .ok p ∧ ∃ art, LineArt.ofMarkup? p.markup = some art ∧
        art.width.toFloat ≠ s.width.toFloat) := by
  refine ⟨?_, ?_, ?_⟩
  · intro f
    have hbuild : ∃ s, RenderSettings.build (fun _ => none) = .ok s ∧
        decide (HasPlainTexts s f ∧ renderFault? s f = some (.overflow .operand)) = true :=
      Guard.exists_of_map_toOption (by decide +kernel)
    obtain ⟨s, hs, hall⟩ := hbuild
    obtain ⟨texts, hfault⟩ := of_decide_eq_true hall
    exact ⟨s, hs, texts, render_eq_error_iff.mpr hfault⟩
  · intro f
    have hbuild : ∃ s, RenderSettings.build (fun _ => none) = .ok s ∧
        decide (HasPlainTexts s f ∧ ReadsNumbers s f ∧ s.IsModerate ∧ f.IsModerate ∧
          (Svg.readLines (ofFragment s f).root).1.length = 0 ∧
          (Svg.readLines (ofFragment s f).root).2.length = 1) = true :=
      Guard.exists_of_map_toOption (by decide +kernel)
    obtain ⟨s, hs, hall⟩ := hbuild
    obtain ⟨texts, numbers, settings, fragment, hlines, hwarnings⟩ := of_decide_eq_true hall
    have hrendered := render_eq_ok_iff.mpr ⟨renderFault?_eq_none settings fragment, rfl⟩
    refine ⟨s, hs, texts, numbers, by decide +kernel, _, hrendered, _, ofMarkup?_markup texts,
      ?_, ?_⟩
    · intro hnil
      change (Svg.readLines (ofFragment s f).root).2 = [] at hnil
      rw [hnil] at hwarnings
      exact absurd hwarnings (by decide)
    · change (Svg.readLines (ofFragment s f).root).1.length ≠ f.segments.length
      rw [hlines]
      decide
  · intro f given
    have hbuild : ∃ s, RenderSettings.build given = .ok s ∧
        decide (HasPlainTexts s f ∧ ReadsNumbers s f ∧ s.IsModerate ∧ f.IsModerate ∧
          (Svg.length (some s.width.text) LineArt.defaultWidth).toFloat ≠ s.width.toFloat) = true :=
      Guard.exists_of_map_toOption (by decide +kernel)
    obtain ⟨s, hs, hall⟩ := hbuild
    obtain ⟨texts, numbers, settings, fragment, hwidth⟩ := of_decide_eq_true hall
    have hrendered := render_eq_ok_iff.mpr ⟨renderFault?_eq_none settings fragment, rfl⟩
    exact ⟨s, hs, texts, numbers, _, hrendered, _, ofMarkup?_markup texts, hwidth⟩

end Picture

end Tromp
