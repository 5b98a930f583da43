import Tromp.Diagram.Basic
import Tromp.Proofs.Drawing.Scale
import Tromp.Proofs.Drawing.Success
import Tromp.Proofs.Source.RoundTrip
import Tromp.Proofs.Svg.Rendering
import Tromp.Proofs.Term.Expansion

/-!
# What can fail

Making a diagram is a row of steps: parsing, expansion of literals, resolution, fitting, drawing,
moving onto the canvas.  The lenient parser never fails.  Expansion fails on literals with too many
digits, and on nothing else (`Term.expand?_eq_ok_iff`, `Term.exists_tooLong`).  Whatever it returns
is resolved into a term that is valid.  In exact arithmetic a valid term is fitted and drawn
(`pipeline_succeeds`); in the arithmetic of documents a number may be too large or too long, which
moderate numbers are not (`Diagram.exists_drawing`).

The bound on the digits is sharp: a source of that many zeros and one more is parsed, but its literal
is not expanded (`expand?_zeros`).
-/

namespace Tromp

/-- The lenient parser never fails. -/
theorem exists_lenient (source : String) : ∃ t, (parseWith .lenient source).result = .ok t := by
  obtain ⟨t, fs, h⟩ := Reads.exists_whole (tokens source)
  exact ⟨t, congrArg Prod.fst h.recover_eq⟩

/-- A term breaks on a number. -/
inductive TermFault.IsNumeric : TermFault → Prop where
  | overflow (fault : Overflow) : IsNumeric (.overflow fault)
  | unwritable : IsNumeric .unwritable

theorem TermFault.isNumeric_ofRender (fault : RenderFault) : (ofRender fault).IsNumeric := by
  cases fault with
  | overflow fault => exact .overflow fault
  | tooLong => exact .unwritable

namespace Diagram

variable {mode : Mode} {s : RenderSettings Number} {expression : String} {t : Term}
  {f : Fragment Number}

/-! ### From a term to its drawing -/

/-- A term that is laid out has that layout for its drawing, unless a number overflows or is too
long. -/
theorem drawing_eq (h : layout s.toLayoutSettings t = .ok f) :
    drawing s t =
      match layoutOverflow? s.toLayoutSettings t with
      | some fault =>
        .error (Record.beforeLayoutFault s.toLayoutSettings t (.overflow fault), .overflow fault)
      | none =>
        match renderFault? s f with
        | some fault => .error (Record.beforeRenderFault s t f fault, .ofRender fault)
        | none => .ok f := by
  unfold drawing checkedLayout
  rw [h]
  cases layoutOverflow? s.toLayoutSettings t with
  | some fault => rfl
  | none =>
      change (do
        let _ ← (Picture.render s f).mapError fun fault =>
          (Record.beforeRenderFault s t f fault, TermFault.ofRender fault)
        return f) = _
      unfold Picture.render
      cases renderFault? s f <;> rfl

/-- A valid term is drawn as it is laid out, or it breaks on a number. -/
theorem drawing_cases (s : RenderSettings Number) (ht : t.isValid 0 = true) :
    (∃ f, layout s.toLayoutSettings t = .ok f ∧ drawing s t = .ok f) ∨
      ∃ told fault, drawing s t = .error (told, fault) ∧ fault.IsNumeric := by
  obtain ⟨f, hf⟩ := exists_layout s.toLayoutSettings ht
  rw [drawing_eq hf]
  cases layoutOverflow? s.toLayoutSettings t with
  | some fault => exact .inr ⟨_, _, rfl, .overflow fault⟩
  | none =>
      cases renderFault? s f with
      | some fault => exact .inr ⟨_, _, rfl, TermFault.isNumeric_ofRender fault⟩
      | none => exact .inl ⟨f, hf, rfl⟩

/-- **Moderate numbers break no term.** -/
theorem exists_drawing (hs : s.IsModerate) (ht : t.isValid 0 = true)
    (hweight : t.weight < moderateBound) : ∃ f, drawing s t = .ok f := by
  obtain ⟨f, hf⟩ := exists_layout s.toLayoutSettings ht
  refine ⟨f, ?_⟩
  rw [drawing_eq hf, layoutOverflow?_eq_none hs hweight,
    renderFault?_eq_none hs (isModerate_of_layout hs hweight hf)]

/-! ### From an expression to its diagram -/

/-- What is not parsed has no diagram. -/
theorem generate_of_unparsed {fault : SyntaxFault}
    (h : (parseWith mode expression).result = .error fault) :
    generate mode s expression = .error (.unparsed fault) := by
  simp [generate, h, Except.mapError, bind, Except.bind]

/-- Nor has a term whose literals are not expanded. -/
theorem generate_of_unexpanded {fault : ExpansionFault Empty}
    (h : (parseWith mode expression).result = .ok t) (hfault : t.expand? = .error fault) :
    generate mode s expression =
      .error (.broken ((parseWith mode expression).parser.faults.map .mended)
        (.unexpanded fault)) := by
  simp [generate, h, hfault, Except.mapError, bind, Except.bind]

/-- Nor has one that is not drawn. -/
theorem generate_of_broken {told : List Record} {fault : TermFault}
    (h : (parseWith mode expression).result = .ok t) (hshort : t.HasShortLiterals)
    (hfault : drawing s t.expand.resolve = .error (told, fault)) :
    generate mode s expression =
      .error (.broken ((parseWith mode expression).parser.faults.map .mended ++ told) fault) := by
  simp [generate, h, Term.expand?_eq_ok hshort, hfault, Except.mapError, bind, Except.bind]

/-- Any other term has the diagram of its drawing. -/
theorem generate_of_drawing (h : (parseWith mode expression).result = .ok t)
    (hshort : t.HasShortLiterals) (hdrawing : drawing s t.expand.resolve = .ok f) :
    generate mode s expression =
      .ok ⟨expression, s, (parseWith mode expression).parser.faults, t.expand.resolve, f⟩ := by
  simp [generate, h, Term.expand?_eq_ok hshort, hdrawing, Except.mapError, bind, Except.bind, pure,
    Except.pure]

/-- So short literals and moderate numbers are all that a diagram asks for. -/
theorem exists_generate (h : (parseWith mode expression).result = .ok t)
    (hshort : t.HasShortLiterals) (hs : s.IsModerate)
    (hweight : t.expand.resolve.weight < moderateBound) :
    ∃ d, generate mode s expression = .ok d := by
  obtain ⟨f, hf⟩ := exists_drawing hs (Term.isValid_resolveIn [] t.expand) hweight
  exact ⟨_, generate_of_drawing h hshort hf⟩

/-- What a diagram consists of. -/
theorem generate_eq_ok_iff {d : Diagram} :
    generate mode s expression = .ok d ↔
      ∃ t f, (parseWith mode expression).result = .ok t ∧ t.HasShortLiterals ∧
        layout s.toLayoutSettings t.expand.resolve = .ok f ∧
        drawing s t.expand.resolve = .ok f ∧
        d = ⟨expression, s, (parseWith mode expression).parser.faults, t.expand.resolve, f⟩ := by
  constructor
  · intro h
    cases hparsed : (parseWith mode expression).result with
    | error fault =>
        rw [generate_of_unparsed hparsed] at h
        cases h
    | ok t =>
        by_cases hshort : t.HasShortLiterals
        · rcases drawing_cases s (Term.isValid_resolveIn [] t.expand) with
            ⟨f, hlayout, hf⟩ | ⟨told, fault, hfault, -⟩
          · rw [generate_of_drawing hparsed hshort hf] at h
            exact ⟨t, f, rfl, hshort, hlayout, hf, (Except.ok.inj h).symm⟩
          · rw [generate_of_broken hparsed hshort hfault] at h
            cases h
        · obtain ⟨digits, -, hfault⟩ := Term.exists_tooLong hshort
          rw [generate_of_unexpanded hparsed hfault] at h
          cases h
  · rintro ⟨t, f, hparsed, hshort, -, hf, rfl⟩
    exact generate_of_drawing hparsed hshort hf

/-- **Making a diagram fails in three ways.**  Whatever the settings are, an expression has a
diagram, or it is not parsed, which lenient parsing rules out, or one of its literals has too many
digits, or its term breaks on a number. -/
theorem generate_cases (mode : Mode) (s : RenderSettings Number) (expression : String) :
    (∃ d, generate mode s expression = .ok d) ∨
      (mode = .strict ∧ ∃ fault, generate mode s expression = .error (.unparsed fault)) ∨
      (∃ told digits, digitLimit < digits ∧
        generate mode s expression = .error (.broken told (.unexpanded (.tooLong digits)))) ∨
      ∃ told fault, generate mode s expression = .error (.broken told fault) ∧ fault.IsNumeric := by
  cases hparsed : (parseWith mode expression).result with
  | error fault =>
      refine .inr (.inl ⟨?_, fault, generate_of_unparsed hparsed⟩)
      cases mode with
      | strict => rfl
      | lenient =>
          obtain ⟨t, ht⟩ := exists_lenient expression
          cases ht.symm.trans hparsed
  | ok t =>
      by_cases hshort : t.HasShortLiterals
      · rcases drawing_cases s (Term.isValid_resolveIn [] t.expand) with
          ⟨f, -, hf⟩ | ⟨told, fault, hfault, hnumeric⟩
        · exact .inl ⟨_, generate_of_drawing hparsed hshort hf⟩
        · exact .inr (.inr (.inr ⟨_, fault, generate_of_broken hparsed hshort hfault, hnumeric⟩))
      · obtain ⟨digits, hdigits, hfault⟩ := Term.exists_tooLong hshort
        exact .inr (.inr (.inl ⟨_, digits, hdigits, generate_of_unexpanded hparsed hfault⟩))

end Diagram

/-- **After parsing, only long literals fail.**  The lenient parser always returns a term.  Whatever
either parser returns, if its literals are short they are expanded; the resolved term has an index
for every variable and an abstraction for every index; and for all accepted settings that term is
fitted without a division by zero, the painter draws it from whatever state it is in, and it is laid
out. -/
theorem pipeline_succeeds (source : String) :
    (∃ t, (parseWith .lenient source).result = .ok t) ∧
    ∀ mode t, (parseWith mode source).result = .ok t → t.HasShortLiterals →
      ∃ e, t.expand? = .ok e ∧ e.resolve.isResolved = true ∧ e.resolve.isValid 0 = true ∧
        ∀ s : LayoutSettings Rat, s.IsAccepted →
          (∃ k, s.fitScale? (Scalar.ofNat e.resolve.width) (Scalar.ofNat e.resolve.height)
            e.resolve.size = .ok k) ∧
          (∀ st, ∃ d st', (((s.painter e.resolve).draw e.resolve .root).run).run st =
            (.ok d, st')) ∧
          ∃ d, layout s e.resolve = .ok d := by
  refine ⟨exists_lenient source, ?_⟩
  intro mode t _ hshort
  have hvalid : t.expand.resolve.isValid 0 = true := Term.isValid_resolveIn [] t.expand
  refine ⟨t.expand, Term.expand?_eq_ok hshort, Term.isResolved_of_isValid hvalid, hvalid, ?_⟩
  intro s hs
  refine ⟨⟨_, hs.bounds.fitScale?_eq_ok _⟩, ?_, exists_layout s hvalid⟩
  refine Painter.succeeds_drawAt ?_ .alone
  exact hvalid

/-- An expression with a literal, a binder named by digits and a parenthesis that is missing. -/
theorem pipeline_succeeds_mended :
    let t : Term := .lam (some "3") none
      (.app (.var (some "n") none false) (.var (some "2") none false))
    (parseWith .lenient "λ3.(n 2").result = .ok t ∧ t.HasShortLiterals ∧
      ∃ e, t.expand? = .ok e ∧ e.resolve.isResolved = true ∧ e.resolve.isValid 0 = true ∧
        ∃ s : LayoutSettings Rat, s.IsAccepted ∧
          (∃ k, s.fitScale? (Scalar.ofNat e.resolve.width) (Scalar.ofNat e.resolve.height)
            e.resolve.size = .ok k) ∧
          ∃ d, layout s e.resolve = .ok d := by
  intro t
  have hparsed : (parseWith .lenient "λ3.(n 2").result = .ok t := by decide +kernel
  have hshort : t.HasShortLiterals := by
    refine ⟨?_, ?_⟩ <;> rintro s ⟨⟩ - <;> decide
  obtain ⟨e, he, hresolved, hvalid, hdrawn⟩ :=
    (pipeline_succeeds "λ3.(n 2").2 .lenient t hparsed hshort
  obtain ⟨s, hs, -⟩ := LayoutSettings.exists_build
  have haccepted : s.IsAccepted := .of_build hs
  obtain ⟨hfit, -, hlayout⟩ := hdrawn s haccepted
  exact ⟨hparsed, hshort, e, he, hresolved, hvalid, s, haccepted, hfit, hlayout⟩

/-- A source of too many zeros is parsed, but its literal is not expanded. -/
theorem expand?_zeros {n : Nat} (hn : digitLimit < n) :
    ∃ t, parse (String.ofList (List.replicate n '0')) = .ok t ∧
      t.expand? = .error (.tooLong n) := by
  have hn0 : n ≠ 0 := by
    intro hzero
    rw [hzero] at hn
    exact Nat.not_lt_zero _ hn
  have hname : IsSourceName (String.ofList (List.replicate n '0')) := by
    refine ⟨by simp [hn0], ?_⟩
    intro c hc
    rw [String.toList_ofList] at hc
    rw [List.eq_of_mem_replicate hc]
    decide
  have hdecimal : isDecimal (String.ofList (List.replicate n '0')) = true := by
    have hdigit : isDigit '0' = true := by decide
    simp [isDecimal, hdigit, hn0]
  refine ⟨.var (some (String.ofList (List.replicate n '0'))) none false, ?_, ?_⟩
  · exact Phrase.Spells.parse_eq_ok ((Phrase.Spells.name hname).application.expression)
  · simp [Tree.expand?, hdecimal, hn]

end Tromp
