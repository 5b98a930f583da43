import Mathlib.Control.Monad.Basic
import Tromp.Proofs.Source.Recognition
import Tromp.Proofs.Source.Recovery
import Tromp.Term.Printer

/-!
# Printed terms are read back

The text of a term is a phrase of the grammar: an expression where the term stands on its own, an
application where it is a function, an atom where it is an argument.  `Phrase.Spells` says that a
row of characters is cut into the tokens of such a phrase wherever it stands.  What follows it
matters in one respect only, which is the key fact about names: a name goes on as long as it can,
so it must be followed by a character that is no part of names, and a minus sign at its end must
not be taken for the beginning of an arrow.  Everything that the printer puts behind a name, a
space, a dot or a closing parenthesis, keeps to that.

The last theorem says that parsing takes a printed text back to the term, less what no text can
tell.
-/

namespace Tromp

open Grammar

/-- A name that can be spelled in a source text: some name characters, and nothing else. -/
def IsSourceName (s : String) : Prop := s ≠ "" ∧ ∀ c ∈ s.toList, isNameChar c = true

-- Only the characters of the name are looked at, though there are finitely many characters at all.
instance : DecidablePred IsSourceName := fun s =>
  have : Decidable (∀ c ∈ s.toList, isNameChar c = true) := List.decidableBAll _ _
  inferInstanceAs (Decidable (_ ∧ _))

namespace Term

/-- Whether every name of a term is absent or can be spelled. -/
def HasSourceNames (t : Term) : Prop := ∀ name ∈ t.names, ∀ s ∈ name, IsSourceName s

instance : DecidablePred HasSourceNames := fun _ => List.decidableBAll _ _

/-- What the text of a term tells: an absent name is an underscore, and there are no indices, no
marks of free variables and no tags of numerals. -/
def plain : Term → Term
  | .var name _ _ => .var (some (nameText name)) none false
  | .lam name _ body => .lam (some (nameText name)) none (plain body)
  | .app f a => .app (plain f) (plain a)

variable {name : Option String} {index : Option Nat} {free : Bool} {numeral : Option Int}
  {body f a : Term}

theorem hasSourceNames_var :
    HasSourceNames (.var name index free) ↔ ∀ s ∈ name, IsSourceName s := by
  simp [HasSourceNames, names]

theorem hasSourceNames_lam :
    HasSourceNames (.lam name numeral body) ↔
      (∀ s ∈ name, IsSourceName s) ∧ body.HasSourceNames := by
  simp [HasSourceNames, names]

theorem hasSourceNames_app :
    HasSourceNames (.app f a) ↔ f.HasSourceNames ∧ a.HasSourceNames := by
  simp [HasSourceNames, names, or_imp, forall_and]

/-- The underscore for an absent name is a name like any other. -/
theorem isSourceName_nameText (h : ∀ s ∈ name, IsSourceName s) : IsSourceName (nameText name) := by
  cases name with
  | none => decide
  | some s => exact h s rfl

end Term

/-! ### Cutting names off -/

/-- What may follow a name without becoming part of it. -/
def EndsName (cs : List Char) : Prop := ∀ c ∈ cs.head?, isNameChar c = false ∧ c ≠ '>'

theorem EndsName.nil : EndsName [] := by simp [EndsName]

theorem endsName_cons {c : Char} {cs : List Char} :
    EndsName (c :: cs) ↔ isNameChar c = false ∧ c ≠ '>' := by
  simp [EndsName]

/-- A run of name characters ends where the name does. -/
theorem nameRun_append {cs rest : List Char} (hcs : ∀ c ∈ cs, isNameChar c = true)
    (hrest : EndsName rest) : nameRun (cs ++ rest) = (cs, rest) := by
  induction cs with
  | nil =>
      cases rest with
      | nil => rfl
      | cons d ds =>
          have hd := (endsName_cons.mp hrest).1
          have hminus : d ≠ '-' := by rintro rfl; exact absurd hd (by decide)
          rw [List.nil_append, nameRun]
          · simp [hd]
          · intro ds' hd'
            exact absurd hd' hminus
  | cons c cs ih =>
      have hc := hcs c List.mem_cons_self
      have hrun := ih fun d hd => hcs d (List.mem_cons_of_mem _ hd)
      -- What comes after the first character is no `>`, so that character begins no arrow.
      have hnext : ∀ ds, cs ++ rest ≠ '>' :: ds := by
        intro ds heq
        cases cs with
        | nil =>
            rw [List.nil_append] at heq
            exact (endsName_cons.mp (heq ▸ hrest)).2 rfl
        | cons d ds' =>
            obtain ⟨rfl, -⟩ := List.cons.inj heq
            exact absurd (hcs '>' (by simp)) (by decide)
      rw [List.cons_append, nameRun]
      · simp [hc, hrun]
      · intro ds _ heq
        exact hnext ds heq

section Tokens

variable {n : Nat} {rest : List Char}

theorem tokensFrom_lambda :
    tokensFrom n ('λ' :: rest) = ⟨.lambda, "λ", n⟩ :: tokensFrom (n + 1) rest := by
  rw [tokensFrom] <;> simp [isLambdaSign]

theorem tokensFrom_dot :
    tokensFrom n ('.' :: rest) = ⟨.dot, ".", n⟩ :: tokensFrom (n + 1) rest := by
  rw [tokensFrom] <;> simp [isLambdaSign]

theorem tokensFrom_opening :
    tokensFrom n ('(' :: rest) = ⟨.opening, "(", n⟩ :: tokensFrom (n + 1) rest := by
  rw [tokensFrom] <;> simp [isLambdaSign]

theorem tokensFrom_closing :
    tokensFrom n (')' :: rest) = ⟨.closing, ")", n⟩ :: tokensFrom (n + 1) rest := by
  rw [tokensFrom] <;> simp [isLambdaSign]

theorem tokensFrom_space : tokensFrom n (' ' :: rest) = tokensFrom (n + 1) rest := by
  rw [tokensFrom] <;> simp [isLambdaSign, isNameChar]

/-- A name is one token, whatever ends it. -/
theorem tokensFrom_name {s : String} (hs : IsSourceName s) (hrest : EndsName rest) :
    ∃ m, tokensFrom n (s.toList ++ rest) = ⟨.identifier, s, n⟩ :: tokensFrom m rest := by
  obtain ⟨hne, hall⟩ := hs
  obtain ⟨c, cs, hcs⟩ : ∃ c cs, s.toList = c :: cs := List.exists_cons_of_ne_nil (by simpa using hne)
  rw [hcs] at hall
  have hc := hall c List.mem_cons_self
  have hrun := nameRun_append (fun d hd => hall d (List.mem_cons_of_mem _ hd)) hrest
  have harrow : ∀ ds, c = '-' → cs ++ rest ≠ '>' :: ds := by
    rintro ds rfl heq
    have hwhole := nameRun_append hall hrest
    rw [List.cons_append, heq, nameRun] at hwhole
    cases hwhole
  have hmark : ∀ d, isNameChar d = false → c ≠ d := by
    rintro d hd rfl
    simp [hc] at hd
  have hsign : isLambdaSign c = false := by
    simp [isLambdaSign, hmark 'λ' (by decide), hmark '\\' (by decide)]
  refine ⟨n + (c :: cs).length, ?_⟩
  rw [hcs, List.cons_append, tokensFrom]
  · simp [hsign, hmark '.' (by decide), hmark '(' (by decide), hmark ')' (by decide), hc, hrun,
      ← hcs]
  · exact fun ds hd heq => harrow ds hd heq

end Tokens

/-! ### Cutting texts -/

/-- A row of characters is cut into tokens of some kind wherever it stands, if what comes after it
may follow a name. -/
def Cuts (cs : List Char) (P : List Token → Prop) : Prop :=
  ∀ n rest, EndsName rest → ∃ w m, tokensFrom n (cs ++ rest) = w ++ tokensFrom m rest ∧ P w

namespace Cuts

variable {cs ds : List Char} {P Q R : List Token → Prop}

theorem mono (h : Cuts cs P) (hPQ : ∀ w, P w → Q w) : Cuts cs Q := by
  intro n rest hrest
  obtain ⟨w, m, hw, hP⟩ := h n rest hrest
  exact ⟨w, m, hw, hPQ w hP⟩

theorem name {s : String} (hs : IsSourceName s)
    (hP : ∀ x : Token, x.kind = .identifier → x.text = s → P [x]) : Cuts s.toList P := by
  intro n rest hrest
  obtain ⟨m, hm⟩ := tokensFrom_name (n := n) hs hrest
  exact ⟨_, m, hm, hP ⟨.identifier, s, n⟩ rfl rfl⟩

theorem parenthesized (h : Cuts cs P)
    (hQ : ∀ (x : Token) w (y : Token), x.kind = .opening → P w → y.kind = .closing →
      Q (x :: (w ++ [y]))) :
    Cuts ('(' :: (cs ++ [')'])) Q := by
  intro n rest hrest
  obtain ⟨w, m, hw, hP⟩ := h (n + 1) (')' :: rest) (endsName_cons.mpr (by decide))
  refine ⟨_, m + 1, ?_, hQ ⟨.opening, "(", n⟩ w ⟨.closing, ")", m⟩ rfl hP rfl⟩
  simp [tokensFrom_opening, hw, tokensFrom_closing]

theorem abstraction (hname : Cuts ds P) (hbody : Cuts cs Q)
    (hR : ∀ (x : Token) v (y : Token) w, x.kind = .lambda → P v → y.kind = .dot → Q w →
      R (x :: (v ++ y :: w))) :
    Cuts ('λ' :: (ds ++ '.' :: cs)) R := by
  intro n rest hrest
  obtain ⟨v, m, hv, hP⟩ := hname (n + 1) ('.' :: (cs ++ rest)) (endsName_cons.mpr (by decide))
  obtain ⟨w, m', hw, hQ⟩ := hbody (m + 1) rest hrest
  refine ⟨_, m', ?_, hR ⟨.lambda, "λ", n⟩ v ⟨.dot, ".", m⟩ w rfl hP rfl hQ⟩
  simp [tokensFrom_lambda, hv, tokensFrom_dot, hw]

theorem spaced (h : Cuts cs P) (h' : Cuts ds Q) (hR : ∀ v w, P v → Q w → R (v ++ w)) :
    Cuts (cs ++ ' ' :: ds) R := by
  intro n rest hrest
  obtain ⟨v, m, hv, hP⟩ := h n (' ' :: (ds ++ rest)) (endsName_cons.mpr (by decide))
  obtain ⟨w, m', hw, hQ⟩ := h' (m + 1) rest hrest
  refine ⟨v ++ w, m', ?_, hR v w hP hQ⟩
  simp [hv, tokensFrom_space, hw]

end Cuts

/-! ### Phrases -/

/-- A row of atoms goes on with one more atom. -/
theorem Grammar.Atoms.exists_snoc (as : Atoms) (a : Atom) :
    ∃ bs : Atoms, bs.word = as.word ++ a.word ∧ ∀ f, bs.applied f = .app (as.applied f) a.term := by
  cases as with
  | nil => exact ⟨.cons a .nil, by simp [Atoms.word], fun _ => by simp [Atoms.applied]⟩
  | cons first rest =>
      obtain ⟨bs, hword, happlied⟩ := rest.exists_snoc a
      exact ⟨.cons first bs, by simp [Atoms.word, hword], fun _ => by simp [Atoms.applied, happlied]⟩

/-- An application takes one more argument. -/
theorem Phrase.Derives.apply {v w : List Token} {f a : Term} (hf : Derives .application v f)
    (ha : Derives .atom w a) : Derives .application (v ++ w) (.app f a) := by
  obtain ⟨func, args, rfl, rfl⟩ := hf
  obtain ⟨arg, rfl, rfl⟩ := ha
  obtain ⟨args', hword, happlied⟩ := args.exists_snoc arg
  exact ⟨func, args', by simp [hword], happlied _⟩

/-- A row of characters spells a phrase: wherever it stands, and whatever may follow a name comes
after it, it is cut into the tokens of that phrase. -/
def Phrase.Spells (k : Phrase) (cs : List Char) (t : Term) : Prop :=
  ∀ n rest, EndsName rest →
    ∃ w m, tokensFrom n (cs ++ rest) = w ++ tokensFrom m rest ∧ k.Derives w t

namespace Phrase.Spells

variable {cs ds : List Char} {t f a : Term} {s : String}

theorem name (hs : IsSourceName s) : Spells .atom s.toList (.var (some s) none false) := by
  refine Cuts.name hs fun x hx htext => ?_
  subst htext
  exact Derives.name hx

theorem group (h : Spells .expression cs t) : Spells .atom ('(' :: (cs ++ [')'])) t :=
  Cuts.parenthesized h fun _ _ _ hx hw hy => hw.group hx hy

theorem abstraction (hs : IsSourceName s) (h : Spells .expression cs t) :
    Spells .expression ('λ' :: (s.toList ++ '.' :: cs)) (.lam (some s) none t) := by
  have hname : Cuts s.toList fun v => ∃ x : Token, x.kind = .identifier ∧ x.text = s ∧ v = [x] :=
    Cuts.name hs fun x hx htext => ⟨x, hx, htext, rfl⟩
  refine Cuts.abstraction hname h fun x v y w hx hv hy hw => ?_
  obtain ⟨z, hz, rfl, rfl⟩ := hv
  exact (hw.binding hz hy).abstraction hx

theorem apply (hf : Spells .application cs f) (ha : Spells .atom ds a) :
    Spells .application (cs ++ ' ' :: ds) (.app f a) :=
  Cuts.spaced hf ha fun _ _ hv hw => hv.apply hw

/-- An atom is an application to nothing. -/
theorem application (h : Spells .atom cs t) : Spells .application cs t := by
  refine Cuts.mono h fun w hw => ?_
  have hnone : Derives (.arguments t) [] t := ⟨.nil, rfl, rfl⟩
  simpa using hw.application hnone

theorem expression (h : Spells .application cs t) : Spells .expression cs t :=
  Cuts.mono h fun _ hw => hw.expression

/-- A text that spells an expression is parsed to its term. -/
theorem parse_eq_ok {source : String} (h : Spells .expression source.toList t) :
    parse source = .ok t := by
  obtain ⟨w, m, hw, e, rfl, rfl⟩ := h 0 [] EndsName.nil
  have htokens : tokens source = e.word := by simpa [tokens, tokensFrom] using hw
  exact (htokens ▸ e.reads_whole).parse_eq_ok

end Phrase.Spells

/-! ### Printing -/

/-- The phrase that the text of a term at a place is. -/
def Term.Place.phrase : Term.Place → Phrase
  | .top => .expression
  | .function => .application
  | .argument => .atom

/-- **Printing spells the term.**  Parentheses stand where the place asks for a smaller phrase than
the one that the term is. -/
theorem Term.spells_prettyAt {t : Term} (h : t.HasSourceNames) (place : Term.Place) :
    place.phrase.Spells (t.prettyAt place).toList t.plain := by
  induction t using Term.induction generalizing place with
  | var name index free =>
      have hname := isSourceName_nameText (hasSourceNames_var.mp h)
      have hatom := Phrase.Spells.name hname
      cases place with
      | top => exact hatom.application.expression
      | function => exact hatom.application
      | argument => exact hatom
  | lam name numeral body ih =>
      obtain ⟨hbinder, hbody⟩ := hasSourceNames_lam.mp h
      have hbare := Phrase.Spells.abstraction (isSourceName_nameText hbinder) (ih hbody .top)
      have hgroup := hbare.group
      cases place with
      | top => simpa [Place.phrase, prettyAt, parenthesize, plain] using hbare
      | function => simpa [Place.phrase, prettyAt, parenthesize, plain] using hgroup.application
      | argument => simpa [Place.phrase, prettyAt, parenthesize, plain] using hgroup
  | app f a ihf iha =>
      obtain ⟨hf, ha⟩ := hasSourceNames_app.mp h
      have hbare := (ihf hf .function).apply (iha ha .argument)
      cases place with
      | top => simpa [Place.phrase, prettyAt, parenthesize, plain] using hbare.expression
      | function => simpa [Place.phrase, prettyAt, parenthesize, plain] using hbare
      | argument => simpa [Place.phrase, prettyAt, parenthesize, plain] using hbare.expression.group

/-! ### Parsed terms

A term that comes from a source has the names of its tokens and nothing that a text cannot tell. -/

/-- What a term has that was read from a source. -/
def Term.IsSource (t : Term) : Prop := t.HasSourceNames ∧ t.plain = t

theorem Token.Spelled.isSourceName {x : Token} (hx : x.Spelled) (hk : x.kind = .identifier) :
    IsSourceName x.text := by
  simp only [Token.Spelled, hk] at hx
  exact ⟨by simpa using hx.1, hx.2⟩

/-- The term that a phrase goes on from tells nothing that no text tells. -/
def Phrase.IsPlain : Phrase → Prop
  | .arguments f | .trailing f => f.plain = f
  | .expression | .binding | .application | .atom | .whole => True

/-- What is read from tokens has what a text can tell, and nothing else. -/
theorem Reads.plain_eq {k : Phrase} {ts us : List Token} {t : Term} {fs : List Snag}
    (h : Reads k ts t fs us) (hk : k.IsPlain) : t.plain = t := by
  induction h with
  | abstraction _ _ ih => exact ih trivial
  | expression _ _ ih => exact ih trivial
  | binding _ _ _ ih => rw [Term.plain, ih trivial]; rfl
  | application _ _ ihf iha => exact iha (ihf trivial)
  | noArgument => exact hk
  | argument _ _ _ iha ihr =>
      refine ihr ?_
      rw [Phrase.IsPlain, Term.plain, iha trivial]
      exact congrArg (Tree.app · _) hk
  | name => rfl
  | group _ _ _ ih => exact ih trivial
  | bare _ _ ih => exact ih trivial
  | skipped => rfl
  | missing => rfl
  | finished => exact hk
  | resumed _ _ _ _ iha ihr =>
      refine ihr ?_
      rw [Phrase.IsPlain, Term.plain, iha trivial]
      exact congrArg (Tree.app · _) hk
  | discarded _ _ _ ih => exact ih hk
  | whole _ _ ihe ihr => exact ihr (ihe trivial)

/-- What is parsed is what the tokens of the source are read as. -/
theorem exists_reads_of_parseWith {mode : Mode} {source : String} {t : Term}
    (h : (parseWith mode source).result = .ok t) : ∃ fs, Reads .whole (tokens source) t fs [] := by
  obtain ⟨u, fs, hread⟩ := Reads.exists_whole (tokens source)
  cases mode with
  | lenient =>
      obtain rfl : u = t := Except.ok.inj ((congrArg Prod.fst hread.recover_eq).symm.trans h)
      exact ⟨fs, hread⟩
  | strict =>
      cases fs with
      | nil =>
          obtain rfl : u = t := Except.ok.inj (hread.parse_eq_ok.symm.trans h)
          exact ⟨[], hread⟩
      | cons s fs => cases hread.parse_eq_error.symm.trans h

/-- A name of a term that is parsed is one that a source can spell, or the placeholder. -/
theorem isSourceName_or_eq_placeholder {mode : Mode} {source : String} {t : Term}
    (h : (parseWith mode source).result = .ok t) {s : String} (hs : some s ∈ t.names) :
    IsSourceName s ∨ s = placeholder := by
  obtain ⟨fs, hread⟩ := exists_reads_of_parseWith h
  have hmends : Mends fs.length (marksOf (tokens source)) t.marks := by simpa using hread.mends
  rw [t.names_eq_filterMap] at hs
  obtain ⟨m, hm, hname⟩ := List.mem_filterMap.mp hs
  rcases hmends.mem_or_eq_gap hm with hkept | rfl
  · have hspelled : some s ∈ (marksOf (tokens source)).filterMap Mark.name? :=
      List.mem_filterMap.mpr ⟨m, hkept, hname⟩
    rw [filterMap_marksOf] at hspelled
    obtain ⟨x, hx, htext⟩ := List.mem_map.mp hspelled
    obtain ⟨hmem, hkind⟩ := List.mem_filter.mp hx
    obtain rfl := Option.some.inj htext
    exact Or.inl ((spelled_of_mem_tokens hmem).isSourceName (of_decide_eq_true hkind))
  · exact Or.inr (Option.some.inj (Option.some.inj hname)).symm

/-- A reading without complaints puts in no placeholder. -/
theorem placeholder_not_mem_names {source : String} {t : Term}
    (h : Reads .whole (tokens source) t [] []) : some placeholder ∉ t.names := by
  have hmends : Mends 0 (marksOf (tokens source)) t.marks := by simpa using h.mends
  have hcount := hmends.count_le
  rw [List.count_eq_zero_of_not_mem (gap_not_mem_marksOf_tokens source),
    ← count_filterMap_name?, ← t.names_eq_filterMap] at hcount
  exact List.count_eq_zero.mp (Nat.le_zero.mp hcount)

theorem Term.isSource_of_parse {source : String} {t : Term} (h : parse source = .ok t) :
    t.IsSource := by
  obtain ⟨u, fs, hread⟩ := Reads.exists_whole (tokens source)
  cases fs with
  | nil =>
      obtain rfl : u = t := Except.ok.inj (hread.parse_eq_ok.symm.trans h)
      refine ⟨fun name hname s hs => ?_, hread.plain_eq trivial⟩
      obtain rfl : name = some s := hs
      refine (isSourceName_or_eq_placeholder h hname).resolve_right ?_
      rintro rfl
      exact placeholder_not_mem_names hread hname
  | cons s fs => cases hread.parse_eq_error.symm.trans h

/-- **Printed terms are read back.**  A term whose names can be spelled is parsed from its text, up
to what no text tells; and a term that was parsed is parsed from its text unchanged. -/
theorem parse_pretty :
    (∀ t : Term, (∀ name ∈ t.names, ∀ s ∈ name, s ≠ "" ∧ ∀ c ∈ s.toList, isNameChar c = true) →
      parse t.pretty = .ok t.plain) ∧
    ∀ source t, parse source = .ok t → parse t.pretty = .ok t := by
  have hback : ∀ t : Term, t.HasSourceNames → parse t.pretty = .ok t.plain :=
    fun t h => (t.spells_prettyAt h .top).parse_eq_ok
  refine ⟨hback, fun source t h => ?_⟩
  obtain ⟨hnames, hplain⟩ := Term.isSource_of_parse h
  exact (hback t hnames).trans (congrArg Except.ok hplain)

/-- Names that end in a minus sign, before a dot, a space and a closing parenthesis. -/
theorem parse_pretty_minus_signs :
    Term.HasSourceNames (.app (.lam (some "a-") (some 3) (.var none (some 0) false))
        (.app (.var (some "-") none true) (.var (some "b-") none false))) ∧
      parse (Term.pretty (.app (.lam (some "a-") (some 3) (.var none (some 0) false))
        (.app (.var (some "-") none true) (.var (some "b-") none false)))) =
        .ok (.app (.lam (some "a-") none (.var (some "_") none false))
          (.app (.var (some "-") none false) (.var (some "b-") none false))) ∧
      parse "\\x-->(x- (f))" = .ok (.lam (some "x-") none
        (.app (.var (some "x-") none false) (.var (some "f") none false))) ∧
      parse (Term.pretty (.lam (some "x-") none
        (.app (.var (some "x-") none false) (.var (some "f") none false)))) =
        .ok (.lam (some "x-") none
          (.app (.var (some "x-") none false) (.var (some "f") none false))) := by
  have hnames : Term.HasSourceNames (.app (.lam (some "a-") (some 3) (.var none (some 0) false))
      (.app (.var (some "-") none true) (.var (some "b-") none false))) := by decide
  have hparse : parse "\\x-->(x- (f))" = .ok (.lam (some "x-") none
      (.app (.var (some "x-") none false) (.var (some "f") none false))) := by decide +kernel
  exact ⟨hnames, parse_pretty.1 _ hnames, hparse, parse_pretty.2 _ _ hparse⟩

end Tromp
