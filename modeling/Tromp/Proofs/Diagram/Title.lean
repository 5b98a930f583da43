import Tromp.Proofs.Diagram.Generation
import Tromp.Proofs.Term.Expansion

/-!
# The title of a diagram

A diagram shows its term as text: with numerals in place of literals, and without the indices, which
a text cannot tell.  The text still says everything.  All names are there, since those of the source
are kept and numerals have theirs (`Term.plain_eq`), and resolution looks at names alone, so it finds
the indices anew.  And no name that is left is a literal (`Term.HasNoLiterals`), so what is read back
is not expanded once more.
-/

namespace Tromp

namespace Term

variable {t : Term}

theorem HasSourceNames.expand (h : t.HasSourceNames) : t.expand.HasSourceNames := by
  intro name hname s hs
  rcases mem_names_expand hname with hmem | rfl | rfl
  · exact h name hmem s hs
  · obtain rfl := Option.some.inj hs
    decide
  · obtain rfl := Option.some.inj hs
    decide

theorem IsNamed.expand (h : t.IsNamed) : t.expand.IsNamed := by
  intro hnone
  rcases mem_names_expand hnone with hmem | hf | hx
  · exact h hmem
  · cases hf
  · cases hx

theorem isNamed_plain (t : Term) : t.plain.IsNamed := by
  induction t using Term.induction with
  | var name index free => exact isNamed_var.mpr ⟨nameText name, rfl⟩
  | lam name numeral body ih => exact isNamed_lam.mpr ⟨⟨nameText name, rfl⟩, ih⟩
  | app f a ihf iha => exact isNamed_app.mpr ⟨ihf, iha⟩

/-- The text of a named term leaves out indices, marks and tags, and nothing else. -/
theorem plain_eq (h : t.IsNamed) : t.plain = t.untag.unresolved := by
  induction t using Term.induction with
  | var name index free =>
      obtain ⟨x, rfl⟩ := isNamed_var.mp h
      rfl
  | lam name numeral body ih =>
      obtain ⟨⟨x, rfl⟩, hbody⟩ := isNamed_lam.mp h
      rw [plain, ih hbody]
      rfl
  | app f a ihf iha =>
      obtain ⟨hf, ha⟩ := isNamed_app.mp h
      rw [plain, ihf hf, iha ha]
      rfl

theorem HasNoLiterals.plain (h : t.HasNoLiterals) : t.plain.HasNoLiterals := by
  induction t using Term.induction with
  | var name index free =>
      intro s hs
      obtain rfl := Option.some.inj hs
      cases name with
      | none => decide
      | some x => exact h x rfl
  | lam name numeral body ih => exact ih h
  | app f a ihf iha => exact ⟨ihf h.1, iha h.2⟩

/-- **The text of a resolved term is read back as that term.**  It only loses its tags. -/
theorem reads_back_resolve (hnames : t.HasSourceNames) (hnamed : t.IsNamed)
    (hliterals : t.HasNoLiterals) :
    ∃ u v, parse t.resolve.pretty = .ok u ∧ u.expand? = .ok v ∧ v.resolve = t.resolve.untag := by
  rw [resolve_eq_resolveIn]
  have hspelled : (t.resolveIn []).HasSourceNames := by
    rwa [HasSourceNames, names_resolveIn]
  have hnamed' : (t.resolveIn []).IsNamed := by
    rwa [IsNamed, names_resolveIn]
  have hliterals' : (t.resolveIn []).plain.HasNoLiterals := hliterals.resolveIn.plain
  refine ⟨_, _, (spells_prettyAt hspelled .top).parse_eq_ok, expand?_of_hasNoLiterals hliterals', ?_⟩
  rw [plain_eq hnamed', resolve_eq_resolveIn, resolveIn_unresolved, resolveIn_untag,
    resolveIn_resolveIn]

end Term

/-- The term of a diagram is that of its expression. -/
theorem Diagram.term_eq {mode : Mode} {s : RenderSettings Number} {source : String} {d : Diagram}
    {t : Term} (hread : (parseWith mode source).result = .ok t)
    (h : generate mode s source = .ok d) : d.term = t.expand.resolve := by
  obtain ⟨u, f, hparsed, -, -, -, rfl⟩ := generate_eq_ok_iff.mp h
  rw [Except.ok.inj (hparsed.symm.trans hread)]

/-- **The title of a diagram denotes its term.**  Whatever source is parsed, the text of its term,
with its literals expanded and its variables resolved, is parsed as well, and the same steps lead
from that text to the same term: the same structure, names, indices and marks, less the tags of the
numerals.  The steps are there for every source but those with a literal of too many digits, where
the first expansion stops; and that text is the title of every diagram of the source. -/
theorem title_denotes_term {source : String} {t : Term} (h : parse source = .ok t) :
    (t.HasShortLiterals → t.expand? = .ok t.expand) ∧
      (¬ t.HasShortLiterals →
        ∃ digits, digitLimit < digits ∧ t.expand? = .error (.tooLong digits)) ∧
      (∀ s d, Diagram.generate .strict s source = .ok d →
        d.term = t.expand.resolve ∧ d.title = t.expand.resolve.pretty) ∧
      ∃ u v, parse t.expand.resolve.pretty = .ok u ∧ u.expand? = .ok v ∧
        v.resolve = t.expand.resolve.untag := by
  obtain ⟨hnames, hplain⟩ := Term.isSource_of_parse h
  have hnamed : t.IsNamed := hplain ▸ Term.isNamed_plain t
  refine ⟨Term.expand?_eq_ok, Term.exists_tooLong, ?_,
    Term.reads_back_resolve hnames.expand hnamed.expand (Term.hasNoLiterals_expand t)⟩
  intro s d hd
  have hterm := Diagram.term_eq h hd
  exact ⟨hterm, congrArg Term.pretty hterm⟩

/-- Literals below a binder named by digits and one named as the variables of numerals are. -/
theorem title_denotes_term_captured :
    let t : Term := .lam (some "2") none (.lam (some "f") none
      (.app (.app (.var (some "2") none false) (.var (some "f") none false))
        (.var (some "1") none false)))
    parse "λ2.λf.2 f 1" = .ok t ∧
      t.expand.resolve.pretty = "λ2.λf.(λf.λx.f (f x)) f (λf.λx.f x)" ∧
      ∃ u v, parse t.expand.resolve.pretty = .ok u ∧ u.expand? = .ok v ∧
        v.resolve = t.expand.resolve.untag := by
  intro t
  have hparsed : parse "λ2.λf.2 f 1" = .ok t := by decide +kernel
  have hpretty : t.expand.resolve.pretty = "λ2.λf.(λf.λx.f (f x)) f (λf.λx.f x)" := by
    decide +kernel
  exact ⟨hparsed, hpretty, (title_denotes_term hparsed).2.2.2⟩

end Tromp
