import Tromp.Proofs.Diagram.Generation
import Tromp.Proofs.Grid.Scaling
import Tromp.Proofs.Source.Recovery
import Tromp.Proofs.Svg.Paint
import Tromp.Proofs.Term.Expansion
import Tromp.Proofs.Xml.Refusal

/-!
# Colours of a diagram

Two settings that differ in colours only give one source diagrams with one sketch
(`Diagram.sketch_eq_of_withoutColors_eq`).  The drawings differ in colours only, and the labels hold
no markup whatever the source is: their texts are names, which are made of name characters or are the
placeholder, and numbers and words.  So the documents are read back as they are meant, and the reader
does not see paint.

All that is asked of a colour is that it may stand in an attribute.  Nothing is escaped when a
picture is printed, so a colour that holds markup becomes markup, and one angle bracket is enough to
lose every sketch (`Diagram.sketch_eq_empty`).
-/

namespace Tromp

open Xml (HasBareBracket Inert Legible)

/-! ### Texts of labels -/

/-- The characters of names are plain ones, of which there are few enough to look at each. -/
theorem toNat_lt_of_isNameChar {c : Char} (h : isNameChar c = true) : c.toNat < 128 := by
  simp only [isNameChar, Char.isAlphanum, Char.isAlpha, Char.isUpper, Char.isLower, Char.isDigit,
    Char.reduceVal, ge_iff_le, UInt32.le_iff_toNat_le, UInt32.reduceToNat, Char.toNat_val,
    Bool.or_eq_true, Bool.and_eq_true, decide_eq_true_eq, beq_iff_eq] at h
  rcases h with (((((h | rfl) | rfl) | rfl) | rfl) | rfl) | rfl
  · omega
  all_goals decide

theorem isInert_of_isNameChar {c : Char} (h : isNameChar c = true) : Xml.isInert c = true := by
  have hall : ∀ n < 128, isNameChar (.ofNat n) = true → Xml.isInert (.ofNat n) = true := by
    decide +kernel
  have hc := hall c.toNat (toNat_lt_of_isNameChar h)
  rw [Char.ofNat_toNat] at hc
  exact hc h

theorem IsSourceName.inert {s : String} (h : IsSourceName s) : Inert s :=
  fun c hc => isInert_of_isNameChar (h.2 c hc)

namespace Term

variable {t : Term}

/-- Whether the names of a term hold no markup. -/
def HasInertNames (t : Term) : Prop := ∀ s, some s ∈ t.names → Inert s

theorem HasInertNames.expand (h : t.HasInertNames) : t.expand.HasInertNames := by
  intro s hs
  rcases mem_names_expand hs with hmem | hf | hx
  · exact h s hmem
  · obtain rfl := Option.some.inj hf
    exact inert_of_all (by decide)
  · obtain rfl := Option.some.inj hx
    exact inert_of_all (by decide)

theorem HasInertNames.resolve (h : t.HasInertNames) : t.resolve.HasInertNames := by
  rw [resolve_eq_resolveIn, HasInertNames, names_resolveIn]
  exact h

theorem hasInertNames_of_parseWith {mode : Mode} {source : String}
    (h : (parseWith mode source).result = .ok t) : t.HasInertNames := by
  intro s hs
  rcases isSourceName_or_eq_placeholder h hs with hname | rfl
  · exact hname.inert
  · exact inert_of_all (by decide)

end Term

/-- What the label of an abstraction shows holds no markup if its name does not. -/
theorem Painter.inert_abstractionText {name : Option String} (h : ∀ s ∈ name, Inert s)
    (numeral : Option Int) (body : Term) : Inert (abstractionText name numeral body) := by
  unfold abstractionText
  split
  next n => exact Number.inert_text (.whole n)
  next b _ => cases b <;> exact inert_of_all (by decide)
  next n _ _ => exact Number.inert_text (.whole n)
  next =>
      refine inert_append (inert_of_all (by decide)) ?_
      cases name with
      | none => exact inert_empty
      | some s => exact h s rfl

/-- An operator is named by the term that is one. -/
theorem Painter.mem_names_of_operator? {f : Term} {x : String} (h : operator? f = some x) :
    some x ∈ f.names := by
  unfold operator? at h
  split at h
  next =>
      split at h
      · cases h
        exact List.mem_singleton_self _
      · cases h
  next => cases h

/-- Labels hold no markup if names do not. -/
theorem Painter.showsTexts_inert (p : Painter Number) {t : Term} (h : t.HasInertNames) :
    p.ShowsTexts Inert t := by
  induction t using Term.induction with
  | var name index free =>
      intro i _
      have hindex : Inert (toString i) := Number.inert_text (.whole i)
      unfold variableText
      split
      next x _ =>
          split
          · exact hindex
          · exact h x (by simp [Term.names])
      next => exact hindex
  | lam name numeral body ih =>
      refine ⟨inert_abstractionText ?_ numeral body, ih fun s hs => h s (List.mem_cons_of_mem _ hs)⟩
      rintro s rfl
      exact h s List.mem_cons_self
  | app f a ihf iha =>
      refine ⟨?_, ihf fun s hs => h s (List.mem_append_left _ hs),
        iha fun s hs => h s (List.mem_append_right _ hs)⟩
      intro x hx
      exact h x (List.mem_append_left _ (Painter.mem_names_of_operator? hx))

/-! ### Settings -/

/-- The canvas that is read back from a picture is at least one wide and one high. -/
def RenderSettings.HasRoom (s : RenderSettings Number) : Prop :=
  1.0 ≤ (Svg.length (some s.width.text) LineArt.defaultWidth).toFloat ∧
    1.0 ≤ (Svg.length (some s.height.text) LineArt.defaultHeight).toFloat

instance (s : RenderSettings Number) : Decidable s.HasRoom := inferInstanceAs (Decidable (_ ∧ _))

/-- The usual colours may stand in attributes, the usual numbers are moderate, and there is room on
the usual canvas. -/
theorem exists_build_legible :
    ∃ s : RenderSettings Number, RenderSettings.build (fun _ => none) = .ok s ∧
      (∀ c ∈ s.allColors, Legible c) ∧ s.IsModerate ∧ s.HasRoom := by
  have hbuild : ∃ s : RenderSettings Number, RenderSettings.build (fun _ => none) = .ok s ∧
      decide ((∀ c ∈ s.allColors, Legible c) ∧ s.IsModerate ∧ s.HasRoom) = true :=
    Guard.exists_of_map_toOption (by decide +kernel)
  obtain ⟨s, hs, hall⟩ := hbuild
  exact ⟨s, hs, of_decide_eq_true hall⟩

/-- What is computed as another success is, but for a change of its value, is one as well. -/
theorem Guard.eq_ok_of_toOption_eq_map {ε ε' β γ : Type} {x : Except ε β} {y : Except ε' γ}
    {g : β → γ} {b : β} (h : y.toOption = x.toOption.map g) (hx : x = .ok b) : y = .ok (g b) := by
  subst hx
  cases y with
  | error fault => cases h
  | ok c => exact congrArg Except.ok (Option.some.inj h)

/-! ### Sketches -/

/-- The colours and texts of a picture are those of its primitives. -/
theorem Picture.hasTexts_of_allPainted {V : String → Prop} {s : RenderSettings Number}
    {f : Fragment Number} (hbackground : V s.backgroundColor)
    (h : Painter.AllPainted V Inert f.primitives) : HasTexts V s f where
  background := hbackground
  segments := by
    intro g hg
    obtain ⟨q, hq, hview⟩ := List.mem_filterMap.mp hg
    cases q <;> cases hview
    exact h _ hq
  dots := by
    intro d hd
    obtain ⟨q, hq, hview⟩ := List.mem_filterMap.mp hd
    cases q <;> cases hview
    exact h _ hq
  labels := by
    intro l hl
    obtain ⟨q, hq, hview⟩ := List.mem_filterMap.mp hl
    cases q <;> cases hview
    exact h _ hq

/-- The labels of a layout hold no markup, and its colours are those of the settings. -/
theorem hasTexts_of_layout {s : RenderSettings Number} (hcolors : ∀ c ∈ s.allColors, Legible c)
    {t : Term} (hnames : t.HasInertNames) {f : Fragment Number}
    (hf : layout s.toLayoutSettings t = .ok f) : Picture.HasTexts Legible s f := by
  refine Picture.hasTexts_of_allPainted (hcolors _ List.mem_cons_self) ?_
  exact allPainted_of_layout (fun c hc => hcolors c (List.mem_cons_of_mem _ hc)) inert_empty.legible
    (Painter.showsTexts_inert _ hnames) hf

/-- The canvas of a picture is read back from the texts of its sides. -/
theorem Picture.size_of_ofMarkup? {s : RenderSettings Number} {f : Fragment Number}
    (h : HasTexts Legible s f) {art : LineArt}
    (hart : LineArt.ofMarkup? (ofFragment s f).markup = some art) :
    art.width = Svg.length (some s.width.text) LineArt.defaultWidth ∧
      art.height = Svg.length (some s.height.text) LineArt.defaultHeight := by
  obtain ⟨root, hroot, rfl⟩ := Option.map_eq_some_iff.mp hart
  obtain rfl := Option.some.inj
    (hroot.symm.trans (Xml.root?_print (formed_root (fun _ => Inert.legible) h)))
  have hwidth : (ofFragment s f).root.read.attribute? "width" = some s.width.text := by
    simp [ofFragment, size, Xml.Element.read, Xml.readAttribute, Xml.Element.attribute?,
      Xml.Element.attributes, List.lookup, (Number.inert_text s.width).readValue_eq]
  have hheight : (ofFragment s f).root.read.attribute? "height" = some s.height.text := by
    simp [ofFragment, size, Xml.Element.read, Xml.readAttribute, Xml.Element.attribute?,
      Xml.Element.attributes, List.lookup, (Number.inert_text s.height).readValue_eq]
  simp only [LineArt.ofRoot, hwidth, hheight, and_self]

/-! What is told before a fault does not depend on colours. -/

theorem Record.beforeLayoutFault_eq {s s' : LayoutSettings Number}
    (h : s.withoutColors = s'.withoutColors) (t : Term) (fault : LayoutFault Empty) :
    beforeLayoutFault s' t fault = beforeLayoutFault s t fault :=
  calc beforeLayoutFault s' t fault
      = beforeLayoutFault s'.withoutColors t fault := rfl
    _ = beforeLayoutFault s.withoutColors t fault := by rw [h]
    _ = beforeLayoutFault s t fault := rfl

theorem Record.beforeRenderFault_withoutColors (s : RenderSettings Number) (t : Term)
    (f : Fragment Number) (fault : RenderFault) :
    beforeRenderFault s.withoutColors t f.withoutColors fault = beforeRenderFault s t f fault := by
  cases fault with
  | overflow fault => rfl
  | tooLong =>
      rw [beforeRenderFault, beforeRenderFault, ofPlace, ofPlace, f.offset_withoutColors]
      rfl

theorem Record.beforeRenderFault_eq {s s' : RenderSettings Number} {f f' : Fragment Number}
    (hs : s.withoutColors = s'.withoutColors) (hf : f.withoutColors = f'.withoutColors) (t : Term)
    (fault : RenderFault) : beforeRenderFault s' t f' fault = beforeRenderFault s t f fault := by
  rw [← beforeRenderFault_withoutColors s', ← hs, ← hf, beforeRenderFault_withoutColors]

/-- Moderate settings are so in all colours. -/
theorem LayoutSettings.isModerate_of_withoutColors_eq {s s' : LayoutSettings Number}
    (h : s.withoutColors = s'.withoutColors) (hs : s.IsModerate) : s'.IsModerate := by
  have hnumbers : s'.withoutColors.numbers = s.withoutColors.numbers := by rw [h]
  have hs' : ∀ x ∈ s'.withoutColors.numbers, x.magnitude ≤ moderateBound := hnumbers ▸ hs
  exact hs'

namespace Diagram

variable {s s' : RenderSettings Number}

/-- No diagram is reported to be unreadable if its colours may stand in attributes. -/
theorem unreadable_not_mem_sketch (hcolors : ∀ c ∈ s.allColors, Legible c) {mode : Mode}
    {expression : String} {d : Diagram} (h : generate mode s expression = .ok d)
    {terminal : Option Int} {sketch : Sketch} (hsketch : d.sketch terminal = .ok sketch) :
    .unreadable ∉ sketch.warnings := by
  obtain ⟨t, f, hparsed, -, hf, -, rfl⟩ := generate_eq_ok_iff.mp h
  have hnames := (Term.hasInertNames_of_parseWith hparsed).expand.resolve
  exact Sketch.unreadable_not_mem_warnings (hasTexts_of_layout hcolors hnames hf) hsketch

/-- A diagram has a sketch for every terminal, if there is room on its canvas and its colours may
stand in attributes. -/
theorem exists_sketch (hcolors : ∀ c ∈ s.allColors, Legible c) (hroom : s.HasRoom) {mode : Mode}
    {expression : String} {d : Diagram} (h : generate mode s expression = .ok d)
    (terminal : Option Int) : ∃ sketch, d.sketch terminal = .ok sketch := by
  obtain ⟨t, f, hparsed, -, hf, -, rfl⟩ := generate_eq_ok_iff.mp h
  have hnames := (Term.hasInertNames_of_parseWith hparsed).expand.resolve
  refine Sketch.exists_ofMarkup (fun art hart => ?_) terminal
  obtain ⟨hwidth, hheight⟩ :=
    Picture.size_of_ofMarkup? (hasTexts_of_layout hcolors hnames hf) hart
  rw [hwidth, hheight]
  exact hroom

/-- A valid term is drawn in all colours alike, or breaks in all of them on one number and after the
same records. -/
theorem drawing_withoutColors_eq (hsame : s.withoutColors = s'.withoutColors) {t : Term}
    (ht : t.isValid 0 = true) :
    (∃ f f', layout s.toLayoutSettings t = .ok f ∧ layout s'.toLayoutSettings t = .ok f' ∧
      drawing s t = .ok f ∧ drawing s' t = .ok f' ∧ f.withoutColors = f'.withoutColors) ∨
    ∃ told fault, drawing s t = .error (told, fault) ∧ drawing s' t = .error (told, fault) ∧
      fault.IsNumeric := by
  have hlayouts : s.toLayoutSettings.withoutColors = s'.toLayoutSettings.withoutColors :=
    congrArg RenderSettings.toLayoutSettings hsame
  obtain ⟨f, f', hf, hf', hfragments⟩ := layout_withoutColors_eq hlayouts ht
  have hoverflow := layoutOverflow?_eq_of_withoutColors_eq hlayouts ht
  have hfault : renderFault? s' f' = renderFault? s f := by
    rw [← renderFault?_withoutColors s' f', ← hsame, ← hfragments, renderFault?_withoutColors]
  rw [drawing_eq hf, drawing_eq hf', hoverflow, hfault]
  cases layoutOverflow? s.toLayoutSettings t with
  | some fault =>
      have htold := Record.beforeLayoutFault_eq hlayouts t (.overflow fault)
      have hbroken := congrArg (fun told =>
        (Except.error (told, TermFault.overflow fault) : Except _ (Fragment Number))) htold
      exact .inr ⟨_, _, rfl, hbroken, .overflow fault⟩
  | none =>
      cases renderFault? s f with
      | some fault =>
          have htold := Record.beforeRenderFault_eq hsame hfragments t fault
          have hbroken := congrArg (fun told =>
            (Except.error (told, TermFault.ofRender fault) : Except _ (Fragment Number))) htold
          exact .inr ⟨_, _, rfl, hbroken, TermFault.isNumeric_ofRender fault⟩
      | none => exact .inl ⟨f, f', hf, hf', rfl, rfl, hfragments⟩

/-- An expression with short literals has diagrams with one sketch in all colours, or it breaks in
all of them on one number and after the same records. -/
theorem generate_withoutColors_eq (hsame : s.withoutColors = s'.withoutColors)
    (hcolors : ∀ c ∈ s.allColors, Legible c) (hcolors' : ∀ c ∈ s'.allColors, Legible c)
    {mode : Mode} {expression : String} {t : Term}
    (h : (parseWith mode expression).result = .ok t) (hshort : t.HasShortLiterals) :
    (∃ d d', generate mode s expression = .ok d ∧ generate mode s' expression = .ok d' ∧
      ∀ terminal, d.sketch terminal = d'.sketch terminal) ∨
    ∃ told fault, fault.IsNumeric ∧ ∀ s₀ ∈ [s, s'],
      generate mode s₀ expression = .error (.broken told fault) := by
  have hnames : t.expand.resolve.HasInertNames :=
    (Term.hasInertNames_of_parseWith h).expand.resolve
  rcases drawing_withoutColors_eq hsame (Term.isValid_resolveIn [] t.expand) with
    ⟨f, f', hf, hf', hdrawing, hdrawing', hfragments⟩ | ⟨told, fault, hbroken, hbroken', hnumeric⟩
  · refine .inl ⟨_, _, generate_of_drawing h hshort hdrawing,
      generate_of_drawing h hshort hdrawing', ?_⟩
    exact Sketch.ofMarkup_eq hsame hfragments (hasTexts_of_layout hcolors hnames hf)
      (hasTexts_of_layout hcolors' hnames hf')
  · have hfirst := generate_of_broken h hshort hbroken
    have hsecond := generate_of_broken h hshort hbroken'
    exact .inr ⟨_, fault, hnumeric,
      List.forall_mem_cons.mpr ⟨hfirst, List.forall_mem_singleton.mpr hsecond⟩⟩

/-- **Colours do not change the sketch**, as long as they may stand in attributes.  Take an
expression that is parsed and two settings that differ in colours only.

1.  With short literals, either both have a diagram, and for every terminal the two have one sketch,
    text and warnings, or none of them has one; or a number is too large or too long in both, and
    both break on it after the same records.
2.  With a literal of too many digits both break on it.
3.  With short literals and moderate numbers there are diagrams, and on a canvas with room they have
    sketches. -/
theorem sketch_eq_of_withoutColors_eq (hsame : s.withoutColors = s'.withoutColors)
    (hcolors : ∀ c ∈ s.allColors ++ s'.allColors, Legible c) {mode : Mode} {expression : String}
    {t : Term} (h : (parseWith mode expression).result = .ok t) :
    (t.HasShortLiterals →
      (∃ d d', generate mode s expression = .ok d ∧ generate mode s' expression = .ok d' ∧
        ∀ terminal, d.sketch terminal = d'.sketch terminal) ∨
      ∃ told fault, fault.IsNumeric ∧ ∀ s₀ ∈ [s, s'],
        generate mode s₀ expression = .error (.broken told fault)) ∧
    (¬ t.HasShortLiterals →
      ∃ told digits, digitLimit < digits ∧ ∀ s₀ ∈ [s, s'],
        generate mode s₀ expression = .error (.broken told (.unexpanded (.tooLong digits)))) ∧
    (t.HasShortLiterals → s.IsModerate → t.expand.resolve.weight < moderateBound →
      ∃ d d', generate mode s expression = .ok d ∧ generate mode s' expression = .ok d' ∧
        (s.HasRoom → ∀ terminal, ∃ sketch,
          d.sketch terminal = .ok sketch ∧ d'.sketch terminal = .ok sketch)) := by
  obtain ⟨hcolors, hcolors'⟩ := List.forall_mem_append.mp hcolors
  refine ⟨generate_withoutColors_eq hsame hcolors hcolors' h, ?_, ?_⟩
  · intro hlong
    obtain ⟨digits, hdigits, hfault⟩ := Term.exists_tooLong hlong
    exact ⟨_, digits, hdigits, fun _ _ => generate_of_unexpanded h hfault⟩
  · intro hshort hs hweight
    obtain ⟨_, hmade⟩ := exists_generate h hshort hs hweight
    rcases generate_withoutColors_eq hsame hcolors hcolors' h hshort with
      ⟨d, d', hd, hd', hequal⟩ | ⟨told, fault, -, hbroken⟩
    · refine ⟨d, d', hd, hd', fun hroom terminal => ?_⟩
      obtain ⟨sketch, hsketch⟩ := exists_sketch hcolors hroom hd terminal
      exact ⟨sketch, hsketch, (hequal terminal).symm.trans hsketch⟩
    · cases hmade.symm.trans (hbroken s List.mem_cons_self)

/-- A numeral and a free name, in colours that are written with spaces and references. -/
theorem sketch_eq_of_withoutColors_eq_references :
    let t : Term := .app (.var (some "g") none false) (.var (some "2") none false)
    let given : Field → Option (Value Number) := fun field =>
      match field with
      | .backgroundColor => some (.text "rgb(40, 42, 54)")
      | .freeColor => some (.text "&#35;ff5555")
      | .textColor => some (.text "")
      | .operatorColor => some (.text "a>b")
      | .numeralColor => some (.text "'&lt;&quot;")
      | .colors => some (.list [.text "a\nb"])
      | _ => none
    ∃ s s' : RenderSettings Number, RenderSettings.build (fun _ => none) = .ok s ∧
      RenderSettings.build given = .ok s' ∧ s.withoutColors = s'.withoutColors ∧
      (∀ c ∈ s.allColors ++ s'.allColors, Legible c) ∧
      (parseWith .strict "g 2").result = .ok t ∧ t.HasShortLiterals ∧
      ∃ d d', generate .strict s "g 2" = .ok d ∧ generate .strict s' "g 2" = .ok d' ∧
        ∀ terminal, ∃ sketch,
          d.sketch terminal = .ok sketch ∧ d'.sketch terminal = .ok sketch := by
  intro t given
  let repaint : RenderSettings Number → RenderSettings Number := fun s =>
    { s with
      backgroundColor := "rgb(40, 42, 54)"
      freeColor := "&#35;ff5555"
      textColor := ""
      operatorColor := "a>b"
      numeralColor := "'&lt;&quot;"
      colors := ["a\nb"] }
  obtain ⟨s, hs, hcolors, hmoderate, hroom⟩ := exists_build_legible
  have hsame : s.withoutColors = (repaint s).withoutColors := rfl
  have hrepainted : ∀ c ∈ (repaint s).allColors, Legible c := by
    change ∀ c ∈ ["rgb(40, 42, 54)", "&#35;ff5555", "", "a>b", "'&lt;&quot;", "a\nb"], Legible c
    decide
  have hlegible := List.forall_mem_append.mpr ⟨hcolors, hrepainted⟩
  have hparsed : (parseWith .strict "g 2").result = .ok t := by decide +kernel
  have hshort : t.HasShortLiterals := by
    refine ⟨?_, ?_⟩ <;> rintro s ⟨⟩ - <;> decide
  have hweight : t.expand.resolve.weight < moderateBound := by decide +kernel
  obtain ⟨-, -, hdiagrams⟩ := sketch_eq_of_withoutColors_eq hsame hlegible hparsed
  obtain ⟨d, d', hd, hd', hsketches⟩ := hdiagrams hshort hmoderate hweight
  exact ⟨s, repaint s, hs, Guard.eq_ok_of_toOption_eq_map rfl hs, hsame, hlegible, hparsed, hshort,
    d, d', hd, hd', hsketches hroom⟩

end Diagram

/-! ### Colours that hold markup -/

/-- A picture whose background colour has a bare bracket is not read, whatever is drawn on it. -/
theorem Picture.root?_markup_eq_none {s : RenderSettings Number}
    (h : HasBareBracket s.backgroundColor) (f : Fragment Number) :
    Xml.root? (ofFragment s f).markup = none := by
  have hplain : ∀ as : List (String × String), (∀ a ∈ as, Inert a.2) →
      ∀ a ∈ as, ∀ c ∈ a.2.toList, c ≠ '<' ∧ c ≠ '"' := by
    intro as has a ha c hc
    exact ((has a ha).legible.characters c hc).2
  have hsize : ∀ a ∈ size s, Inert a.2 := by simp [size, Number.inert_text]
  refine Xml.root?_eq_none (.child (by decide) (plain_keys_root s f)
    (hplain _ (inert_values_root s f)) inert_empty ?_ [])
  intro read
  have hkey : Xml.isPlainName "fill".toList = true := by decide
  refine .element (.startTag (by decide) ?_ (hplain _ hsize) hkey h read)
  simp [size]
  decide

/-- A diagram with such a background has an empty sketch. -/
theorem Diagram.sketch_eq_empty {d : Diagram} (h : HasBareBracket d.settings.backgroundColor)
    (terminal : Option Int) : d.sketch terminal = .ok ⟨"", [.unreadable]⟩ := by
  have hnone := Picture.root?_markup_eq_none h d.fragment
  simp only [sketch, svg, picture, Sketch.ofMarkup, LineArt.ofMarkup?, hnone, Option.map_none]

/-- One bracket for a background colour loses the sketch of a variable. -/
theorem Diagram.sketch_ne_of_bracket :
    ∃ s s' : RenderSettings Number, RenderSettings.build (fun _ => none) = .ok s ∧
      RenderSettings.build
        (fun field => if field = .backgroundColor then some (.text "<") else none) = .ok s' ∧
      s.withoutColors = s'.withoutColors ∧ s.colors.length = s'.colors.length ∧
      ∃ d d', generate .strict s "x" = .ok d ∧ generate .strict s' "x" = .ok d' ∧
        d.sketch (some 40) ≠ d'.sketch (some 40) := by
  let repaint : RenderSettings Number → RenderSettings Number := fun s =>
    { s with backgroundColor := "<" }
  obtain ⟨s, hs, hcolors, hmoderate, -⟩ := exists_build_legible
  have hparsed : (parseWith .strict "x").result = .ok (.var (some "x") none false) := by
    decide +kernel
  have hshort : Term.HasShortLiterals (.var (some "x") none false) := by
    rintro _ ⟨⟩ hdecimal
    exact absurd hdecimal (by decide)
  have hweight : (Term.expand (.var (some "x") none false)).resolve.weight < moderateBound := by
    decide +kernel
  obtain ⟨d, hd⟩ := exists_generate hparsed hshort hmoderate hweight
  obtain ⟨d', hd'⟩ := exists_generate (s := repaint s) hparsed hshort hmoderate hweight
  refine ⟨s, repaint s, hs, Guard.eq_ok_of_toOption_eq_map rfl hs, rfl, rfl, d, d', hd, hd', ?_⟩
  intro heq
  have hbracket : HasBareBracket "<" := ⟨[], [], by decide, nofun⟩
  have hempty : d'.sketch (some 40) = .ok ⟨"", [.unreadable]⟩ := by
    refine sketch_eq_empty ?_ (some 40)
    obtain ⟨_, _, -, -, -, -, rfl⟩ := generate_eq_ok_iff.mp hd'
    exact hbracket
  exact unreadable_not_mem_sketch hcolors hd (heq.trans hempty) (List.mem_singleton_self _)

end Tromp
