import Mathlib.Control.Monad.Basic
import Tromp.Proofs.Source.Recognition
import Tromp.Proofs.Source.Spelling

/-!
# Faults are reported as early as possible

The tokens before the first complaint of a reading can be completed to a sentence, and the token
at which it is made cannot stand there in any sentence.  The first half is the viable prefix
property of the parser: at every place, what has been read is the beginning of a derivation.  For
the second half, reading looks at one token at a time, so that another row of tokens which agrees
with the first one up to and including the offending token meets a complaint as well, and a
sentence meets none.

`Phrase.Breaks` holds both halves, with one lemma for each way in which a phrase can be broken, and
`Reads.breaks` puts them together.
-/

namespace Tromp

open Grammar

/-- Whether a reading of a phrase from a row of tokens complains. -/
def Phrase.Faulty (k : Phrase) (ts : List Token) : Prop :=
  ∃ t s fs us, Reads k ts t (s :: fs) us

/-- A phrase breaks off between the tokens `pre` and `rest`: something completes `pre`, but nothing
that begins as `rest` does. -/
structure Phrase.Breaks (k : Phrase) (pre rest : List Token) : Prop where
  viable : ∃ more t, k.Derives (pre ++ more) t
  faulty : ∀ vs, vs.head? = rest.head? → k.Faulty (pre ++ vs)

-- Any tokens complete a prefix; these are the ones that the proofs take.
def someName : Terminal .identifier := ⟨⟨.identifier, "x", 0⟩, rfl⟩

def someDot : Terminal .dot := ⟨⟨.dot, ".", 0⟩, rfl⟩

def someClosing : Terminal .closing := ⟨⟨.closing, ")", 0⟩, rfl⟩

/-- The shortest expression. -/
def someExpression : Expression := .application (.name someName) .nil

theorem head?_append_congr (pre : List Token) {us vs : List Token} (h : us.head? = vs.head?) :
    (pre ++ us).head? = (pre ++ vs).head? := by
  rw [List.head?_append, List.head?_append, h]

theorem mayFollow_congr {us vs : List Token} (h : us.head? = vs.head?) :
    MayFollow us ↔ MayFollow vs := by
  simp [MayFollow, h]

namespace Phrase.Breaks

variable {pre rest : List Token} {f : Term} {x y : Token}

theorem abstraction (h : Breaks .binding pre rest) (hx : x.kind = .lambda) :
    Breaks .expression (x :: pre) rest := by
  obtain ⟨⟨more, t, hd⟩, hf⟩ := h
  refine ⟨⟨more, t, hd.abstraction hx⟩, fun vs hvs => ?_⟩
  obtain ⟨t, s, fs, us, hr⟩ := hf vs hvs
  exact ⟨t, s, fs, us, .abstraction hx hr⟩

theorem expression (h : Breaks .application pre rest)
    (hx : ∀ x ∈ (pre ++ rest).head?, x.kind ≠ .lambda) : Breaks .expression pre rest := by
  obtain ⟨⟨more, t, hd⟩, hf⟩ := h
  refine ⟨⟨more, t, hd.expression⟩, fun vs hvs => ?_⟩
  obtain ⟨t, s, fs, us, hr⟩ := hf vs hvs
  exact ⟨t, s, fs, us, .expression (head?_append_congr pre hvs ▸ hx) hr⟩

/-- A lambda sign without a name. -/
theorem binder (hx : ∀ x ∈ rest.head?, x.kind ≠ .identifier) : Breaks .binding [] rest := by
  refine ⟨⟨_, _, someName, someDot, someExpression, rfl, rfl⟩, fun vs hvs => ?_⟩
  obtain ⟨y, gs, us, hdot⟩ := Takes.exists .dot .expectedDot vs
  obtain ⟨t, hs, ws, hbody⟩ := Reads.exists_expression us
  exact ⟨_, _, _, _, .binding (.absent (hvs ▸ hx)) hdot hbody⟩

/-- A binder without a dot. -/
theorem dot (hx : x.kind = .identifier) (hy : ∀ y ∈ rest.head?, y.kind ≠ .dot) :
    Breaks .binding [x] rest := by
  refine ⟨⟨_, _, ⟨x, hx⟩, someDot, someExpression, rfl, rfl⟩, fun vs hvs => ?_⟩
  obtain ⟨t, hs, ws, hbody⟩ := Reads.exists_expression vs
  exact ⟨_, _, _, _, .binding (.present hx) (.absent (hvs ▸ hy)) hbody⟩

/-- An abstraction whose body breaks off. -/
theorem body (h : Breaks .expression pre rest) (hx : x.kind = .identifier) (hy : y.kind = .dot) :
    Breaks .binding (x :: y :: pre) rest := by
  obtain ⟨⟨more, t, hd⟩, hf⟩ := h
  refine ⟨⟨more, _, hd.binding hx hy⟩, fun vs hvs => ?_⟩
  obtain ⟨t, s, fs, us, hr⟩ := hf vs hvs
  exact ⟨_, s, fs, us, .binding (.present hx) (.present hy) hr⟩

theorem func (h : Breaks .atom pre rest) : Breaks .application pre rest := by
  obtain ⟨⟨more, t, a, ha, -⟩, hf⟩ := h
  refine ⟨⟨more, _, a, .nil, by simpa [Atoms.word] using ha, rfl⟩, fun vs hvs => ?_⟩
  obtain ⟨f, s, fs, us, hr⟩ := hf vs hvs
  obtain ⟨t, gs, ws, hargs⟩ := Reads.exists_arguments f us
  exact ⟨t, s, fs ++ gs, ws, .application hr hargs⟩

/-- An application whose arguments break off. -/
theorem args (a : Atom) (h : Breaks (.arguments a.term) pre rest) :
    Breaks .application (a.word ++ pre) rest := by
  obtain ⟨⟨more, t, as, has, -⟩, hf⟩ := h
  refine ⟨⟨more, _, a, as, by simp [has], rfl⟩, fun vs hvs => ?_⟩
  obtain ⟨t, s, fs, us, hr⟩ := hf vs hvs
  rw [List.append_assoc]
  exact ⟨t, s, fs, us, .application (a.reads _) hr⟩

/-- Arguments of which the first one breaks off. -/
theorem firstArg (f : Term) (h : Breaks .atom pre rest) (hts : ¬ MayFollow (pre ++ rest)) :
    Breaks (.arguments f) pre rest := by
  obtain ⟨⟨more, t, a, ha, -⟩, hf⟩ := h
  refine ⟨⟨more, _, .cons a .nil, by simpa [Atoms.word] using ha, rfl⟩, fun vs hvs => ?_⟩
  obtain ⟨a, s, fs, us, hr⟩ := hf vs hvs
  obtain ⟨t, gs, ws, hargs⟩ := Reads.exists_arguments (.app f a) us
  have hvs' := mt (mayFollow_congr (head?_append_congr pre hvs)).mp hts
  exact ⟨t, s, fs ++ gs, ws, .argument hvs' hr hargs⟩

/-- Arguments of which a later one breaks off. -/
theorem laterArg (a : Atom) (h : Breaks (.arguments (.app f a.term)) pre rest) :
    Breaks (.arguments f) (a.word ++ pre) rest := by
  obtain ⟨⟨more, t, as, has, -⟩, hf⟩ := h
  refine ⟨⟨more, _, .cons a as, by simp [Atoms.word, has], rfl⟩, fun vs hvs => ?_⟩
  obtain ⟨t, s, fs, us, hr⟩ := hf vs hvs
  rw [List.append_assoc]
  exact ⟨t, s, fs, us, .argument (a.not_mayFollow _) (a.reads _) hr⟩

theorem inner (h : Breaks .expression pre rest) (hx : x.kind = .opening) :
    Breaks .atom (x :: pre) rest := by
  obtain ⟨⟨more, t, hd⟩, hf⟩ := h
  have hg := hd.group hx someClosing.2
  refine ⟨⟨more ++ [someClosing.1], t, by simpa using hg⟩, fun vs hvs => ?_⟩
  obtain ⟨t, s, fs, us, hr⟩ := hf vs hvs
  obtain ⟨y, gs, ws, hclose⟩ := Takes.exists .closing .expectedClosing us
  exact ⟨t, s, fs ++ gs, ws, .group hx hr hclose⟩

/-- A group without its closing parenthesis. -/
theorem closing (e : Expression) (hx : x.kind = .opening) (hrest : MayFollow rest)
    (hy : ∀ y ∈ rest.head?, y.kind ≠ .closing) : Breaks .atom (x :: e.word) rest := by
  refine ⟨⟨[someClosing.1], _, .group ⟨x, hx⟩ e someClosing, rfl, rfl⟩, fun vs hvs => ?_⟩
  have hinner := e.reads ((mayFollow_congr hvs).mpr hrest)
  exact ⟨_, _, _, _, .group hx hinner (.absent (hvs ▸ hy))⟩

theorem atom (h : ∀ vs, vs.head? = rest.head? → Faulty .atom vs) : Breaks .atom [] rest :=
  ⟨⟨_, _, .name someName, rfl, rfl⟩, h⟩

/-- Where nothing should follow there is something. -/
theorem trailing (f : Term) (hx : x.kind.begins = false) (ts : List Token) :
    Breaks (.trailing f) [] (x :: ts) := by
  refine ⟨⟨[], f, rfl, rfl⟩, fun vs hvs => ?_⟩
  obtain ⟨us, rfl⟩ := List.head?_eq_some_iff.mp hvs
  obtain ⟨t, fs, h⟩ := Reads.exists_trailing f (x :: us) (mayFollow_cons.mpr hx)
  cases h with
  | resumed _ hts harg hrest => exact ⟨_, _, _, _, .resumed hx hts harg hrest⟩
  | discarded _ hts hrest => exact ⟨_, _, _, _, .discarded hx hts hrest⟩

theorem whole (h : Breaks .expression pre rest) : Breaks .whole pre rest := by
  obtain ⟨hd, hf⟩ := h
  refine ⟨hd, fun vs hvs => ?_⟩
  obtain ⟨f, s, fs, us, hr⟩ := hf vs hvs
  obtain ⟨t, gs, hrest⟩ := Reads.exists_trailing f us (hr.mayFollow (by simp))
  exact ⟨t, s, fs ++ gs, [], .whole hr hrest⟩

/-- A source with something after its expression. -/
theorem remainder (e : Expression) (h : Breaks (.trailing e.term) pre rest)
    (hts : MayFollow (pre ++ rest)) : Breaks .whole (e.word ++ pre) rest := by
  obtain ⟨⟨more, t, hd, -⟩, hf⟩ := h
  refine ⟨⟨more, _, e, by simp [← hd], rfl⟩, fun vs hvs => ?_⟩
  obtain ⟨t, s, fs, us, hr⟩ := hf vs hvs
  have he := e.reads ((mayFollow_congr (head?_append_congr pre hvs)).mpr hts)
  rw [List.append_assoc]
  exact ⟨t, s, fs, us, .whole he hr⟩

end Phrase.Breaks

/-- **The first complaint of a reading is where its phrase breaks off.** -/
theorem Reads.breaks {k : Phrase} {ts us : List Token} {t : Term} {s : Snag} {fs : List Snag}
    (h : Reads k ts t (s :: fs) us) : ∃ pre, ts = pre ++ s.rest ∧ k.Breaks pre s.rest := by
  generalize hfs : s :: fs = gs at h
  induction h generalizing fs with
  | abstraction hx _ ih =>
      obtain ⟨pre, rfl, hb⟩ := ih hfs
      exact ⟨_, rfl, hb.abstraction hx⟩
  | expression hx _ ih =>
      obtain ⟨pre, rfl, hb⟩ := ih hfs
      exact ⟨_, rfl, hb.expression hx⟩
  | binding hname hdot _ ih =>
      cases hname with
      | absent hx =>
          cases hfs
          exact ⟨[], rfl, .binder hx⟩
      | present hx =>
          cases hdot with
          | absent hy =>
              cases hfs
              exact ⟨[_], rfl, .dot hx hy⟩
          | present hy =>
              obtain ⟨pre, rfl, hb⟩ := ih hfs
              exact ⟨_, rfl, hb.body hx hy⟩
  -- Where two parts are read, the first fault lies in the second part only if the first part is
  -- read without complaints, and then its derivation stands before the break.
  | application hfunc _ ihf iha =>
      rcases List.cons_eq_append_iff.mp hfs with ⟨rfl, hgs⟩ | ⟨gs, rfl, rfl⟩
      · obtain ⟨_, rfl, a, rfl, rfl⟩ := hfunc.derives
        obtain ⟨pre, rfl, hb⟩ := iha hgs.symm
        exact ⟨a.word ++ pre, by simp, hb.args a⟩
      · obtain ⟨pre, rfl, hb⟩ := ihf rfl
        exact ⟨_, rfl, hb.func⟩
  | argument hts harg _ iha ihr =>
      rcases List.cons_eq_append_iff.mp hfs with ⟨rfl, hgs⟩ | ⟨gs, rfl, rfl⟩
      · obtain ⟨_, rfl, a, rfl, rfl⟩ := harg.derives
        obtain ⟨pre, rfl, hb⟩ := ihr hgs.symm
        exact ⟨a.word ++ pre, by simp, hb.laterArg a⟩
      · obtain ⟨pre, rfl, hb⟩ := iha rfl
        exact ⟨_, rfl, hb.firstArg _ hts⟩
  | group hx hinner hclose ih =>
      rcases List.cons_eq_append_iff.mp hfs with ⟨rfl, hgs⟩ | ⟨gs, rfl, rfl⟩
      · obtain ⟨_, rfl, e, rfl, rfl⟩ := hinner.derives
        cases hclose with
        | absent hy =>
            cases hgs
            exact ⟨_, rfl, .closing e hx (hinner.mayFollow (by simp)) hy⟩
        | present => cases hgs
      · obtain ⟨pre, rfl, hb⟩ := ih rfl
        exact ⟨_, rfl, hb.inner hx⟩
  -- An atom is missing, and stays missing whatever follows the token that stands in its place.
  | bare hx _ _ =>
      cases hfs
      refine ⟨[], rfl, .atom fun vs hvs => ?_⟩
      obtain ⟨us, rfl⟩ := List.head?_eq_some_iff.mp hvs
      obtain ⟨t, fs, ws, hb⟩ := Reads.exists_binding us
      exact ⟨_, _, _, _, .bare hx hb⟩
  | skipped hx =>
      cases hfs
      refine ⟨[], rfl, .atom fun vs hvs => ?_⟩
      obtain ⟨us, rfl⟩ := List.head?_eq_some_iff.mp hvs
      exact ⟨_, _, _, _, .skipped hx⟩
  | missing hx =>
      cases hfs
      exact ⟨[], rfl, .atom fun vs hvs => ⟨_, _, _, _, .missing (hvs ▸ hx)⟩⟩
  | resumed hx _ _ _ _ _ | discarded hx _ _ _ =>
      cases hfs
      exact ⟨[], rfl, .trailing _ hx _⟩
  | noArgument | name | finished => cases hfs
  | whole hexpr _ ihe ihr =>
      rcases List.cons_eq_append_iff.mp hfs with ⟨rfl, hgs⟩ | ⟨gs, rfl, rfl⟩
      · obtain ⟨_, rfl, e, rfl, rfl⟩ := hexpr.derives
        obtain ⟨pre, rfl, hb⟩ := ihr hgs.symm
        exact ⟨e.word ++ pre, by simp, hb.remainder e (hexpr.mayFollow (by simp))⟩
      · obtain ⟨pre, rfl, hb⟩ := ihe rfl
        exact ⟨_, rfl, hb.whole⟩

theorem Phrase.Faulty.not_sentence {ts : List Token} (h : Faulty .whole ts) : ¬ Sentence ts := by
  rintro ⟨e, rfl⟩
  obtain ⟨t, s, fs, us, hr⟩ := h
  simpa using (hr.unique e.reads_whole).2.2

/-- **Faults are reported at the earliest token.**  The tokens before the one that a fault names
begin some sentence.  If the offending token is not the end, no sentence goes on with it, and if it
is the end, the tokens before it are no sentence. -/
theorem parse_error_at_earliest_token (source : String) (fault : SyntaxFault)
    (h : parse source = .error fault) :
    ∃ k token, (tokenize source)[k]? = some token ∧
      fault.kindName = token.kind.name ∧ fault.text = token.text ∧
      fault.position = token.position ∧
      (∃ more, Sentence ((tokenize source).take k ++ more)) ∧
      (token.kind ≠ .finish → ∀ more, ¬ Sentence ((tokenize source).take (k + 1) ++ more)) ∧
      (token.kind = .finish → ¬ Sentence ((tokenize source).take k)) := by
  obtain ⟨t, fs, hr⟩ := Reads.exists_whole (tokens source)
  cases fs with
  | nil => simp [hr.parse_eq_ok] at h
  | cons s fs =>
      rw [hr.parse_eq_error, Except.error.injEq] at h
      subst h
      obtain ⟨pre, hts, ⟨more, u, e, he, -⟩, hf⟩ := hr.breaks
      have hall : tokenize source = pre ++ (s.rest ++ [finishToken source]) := by
        simp [tokenize, hts]
      have htake : (tokenize source).take pre.length = pre := by simp [hall]
      refine ⟨pre.length, s.rest.headD (finishToken source), ?_, rfl, rfl, rfl,
        ⟨more, e, by rw [htake, he]⟩, fun hk more => ?_, fun hk => ?_⟩
      · cases hs : s.rest <;> simp [hall, hs]
      · cases hs : s.rest with
        | nil => simp [hs, finishToken] at hk
        | cons x rest =>
            have hx : (tokenize source).take (pre.length + 1) = pre ++ [x] := by
              simp [hall, hs, List.take_length_add_append]
            rw [hx, List.append_assoc]
            exact (hf _ (by simp [hs])).not_sentence
      · cases hs : s.rest with
        | nil =>
            have hp := (hf [] (by simp [hs])).not_sentence
            rwa [htake, ← List.append_nil pre]
        | cons x rest =>
            have hx : x ∈ tokens source := by simp [hts, hs]
            exact absurd (by simpa [hs] using hk) (spelled_of_mem_tokens hx).kind_ne_finish

/-- Inside a group, a binder without a dot is reported at the token after it. -/
theorem parse_error_at_earliest_token_in_group :
    parse "f (λx x)" = .error ⟨.expectedDot, "variable", "x", 6, some "f (λx x)"⟩ ∧
      ∃ k token, (tokenize "f (λx x)")[k]? = some token ∧
        "variable" = token.kind.name ∧ "x" = token.text ∧ (6 : Int) = token.position ∧
        (∃ more, Sentence ((tokenize "f (λx x)").take k ++ more)) ∧
        (token.kind ≠ .finish → ∀ more, ¬ Sentence ((tokenize "f (λx x)").take (k + 1) ++ more)) ∧
        (token.kind = .finish → ¬ Sentence ((tokenize "f (λx x)").take k)) := by
  have h : parse "f (λx x)" = .error ⟨.expectedDot, "variable", "x", 6, some "f (λx x)"⟩ := by
    decide +kernel
  exact ⟨h, parse_error_at_earliest_token _ _ h⟩

end Tromp
