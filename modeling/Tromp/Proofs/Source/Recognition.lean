import Tromp.Proofs.Source.Agreement

/-!
# The parser recognizes the grammar

A reading without complaints is the same as a derivation.  Soundness (`Reads.derives`) takes the
tokens of the derivation off the front of what is read; completeness (`Expression.reads`, with one
companion for each other kind of derivation) needs to know that no atom can follow, because an
application goes on as long as there is one.

Together with `Expression.word_injective` they say that strict parsing succeeds on the sentences of
the grammar and on nothing else, and gives the term of the only derivation.
-/

namespace Tromp

open Grammar

/-- The rows of tokens and the terms that the grammar derives from a phrase. -/
def Phrase.Derives : Phrase → List Token → Term → Prop
  | .expression, w, t | .whole, w, t => ∃ e : Expression, e.word = w ∧ e.term = t
  | .binding, w, t => ∃ (x : Terminal .identifier) (y : Terminal .dot) (e : Expression),
      x.1 :: y.1 :: e.word = w ∧ .lam (some x.1.text) none e.term = t
  | .application, w, t => ∃ (a : Atom) (as : Atoms), a.word ++ as.word = w ∧ as.applied a.term = t
  | .arguments f, w, t => ∃ as : Atoms, as.word = w ∧ as.applied f = t
  | .atom, w, t => ∃ a : Atom, a.word = w ∧ a.term = t
  | .trailing f, w, t => [] = w ∧ f = t

namespace Phrase.Derives

variable {v w : List Token} {f a t : Term} {x y : Token}

theorem abstraction (h : Derives .binding w t) (hx : x.kind = .lambda) :
    Derives .expression (x :: w) t := by
  obtain ⟨name, mark, body, rfl, rfl⟩ := h
  exact ⟨.abstraction ⟨x, hx⟩ name mark body, rfl, rfl⟩

theorem expression (h : Derives .application w t) : Derives .expression w t := by
  obtain ⟨func, args, rfl, rfl⟩ := h
  exact ⟨.application func args, rfl, rfl⟩

theorem binding (h : Derives .expression w t) (hx : x.kind = .identifier) (hy : y.kind = .dot) :
    Derives .binding (x :: y :: w) (.lam (some x.text) none t) := by
  obtain ⟨body, rfl, rfl⟩ := h
  exact ⟨⟨x, hx⟩, ⟨y, hy⟩, body, rfl, rfl⟩

theorem application (hf : Derives .atom v f) (h : Derives (.arguments f) w t) :
    Derives .application (v ++ w) t := by
  obtain ⟨func, rfl, rfl⟩ := hf
  obtain ⟨args, rfl, rfl⟩ := h
  exact ⟨func, args, rfl, rfl⟩

theorem argument (ha : Derives .atom v a) (h : Derives (.arguments (.app f a)) w t) :
    Derives (.arguments f) (v ++ w) t := by
  obtain ⟨arg, rfl, rfl⟩ := ha
  obtain ⟨args, rfl, rfl⟩ := h
  exact ⟨.cons arg args, rfl, rfl⟩

theorem name (hx : x.kind = .identifier) : Derives .atom [x] (.var (some x.text) none false) :=
  ⟨.name ⟨x, hx⟩, rfl, rfl⟩

theorem group (h : Derives .expression w t) (hx : x.kind = .opening) (hy : y.kind = .closing) :
    Derives .atom (x :: (w ++ [y])) t := by
  obtain ⟨inner, rfl, rfl⟩ := h
  exact ⟨.group ⟨x, hx⟩ inner ⟨y, hy⟩, rfl, rfl⟩

end Phrase.Derives

variable {k : Phrase} {t : Term} {fs : List Snag} {ts us : List Token}

/-- A token is taken without complaint only where it stands first. -/
theorem Takes.eq_cons {kind : TokenKind} {c : Complaint} {x : Option Token}
    (h : Takes kind c ts x [] us) : ∃ y, y.kind = kind ∧ x = some y ∧ ts = y :: us := by
  cases h with
  | present hx => exact ⟨_, hx, rfl, rfl⟩

/-- **Soundness.**  What is read without complaints is derived by the grammar. -/
theorem Reads.derives (h : Reads k ts t [] us) : ∃ w, ts = w ++ us ∧ k.Derives w t := by
  generalize hfs : ([] : List Snag) = fs at h
  induction h with
  | abstraction hx _ ih =>
      obtain ⟨w, rfl, hw⟩ := ih hfs
      exact ⟨_, rfl, hw.abstraction hx⟩
  | expression _ _ ih =>
      obtain ⟨w, rfl, hw⟩ := ih hfs
      exact ⟨_, rfl, hw.expression⟩
  | binding hname hdot _ ih =>
      obtain ⟨rfl, rfl, rfl⟩ := by simpa using hfs
      obtain ⟨x, hx, rfl, rfl⟩ := hname.eq_cons
      obtain ⟨y, hy, rfl, rfl⟩ := hdot.eq_cons
      obtain ⟨w, rfl, hw⟩ := ih rfl
      exact ⟨_, rfl, hw.binding hx hy⟩
  | application _ _ ihf iha =>
      obtain ⟨rfl, rfl⟩ := List.nil_eq_append_iff.mp hfs
      obtain ⟨v, rfl, hv⟩ := ihf rfl
      obtain ⟨w, rfl, hw⟩ := iha rfl
      exact ⟨v ++ w, by simp, hv.application hw⟩
  | noArgument => exact ⟨[], rfl, .nil, rfl, rfl⟩
  | argument _ _ _ iha ihr =>
      obtain ⟨rfl, rfl⟩ := List.nil_eq_append_iff.mp hfs
      obtain ⟨v, rfl, hv⟩ := iha rfl
      obtain ⟨w, rfl, hw⟩ := ihr rfl
      exact ⟨v ++ w, by simp, hv.argument hw⟩
  | name hx => exact ⟨[_], rfl, .name hx⟩
  | group hx _ hclose ih =>
      obtain ⟨rfl, rfl⟩ := List.nil_eq_append_iff.mp hfs
      obtain ⟨w, rfl, hw⟩ := ih rfl
      obtain ⟨y, hy, rfl, rfl⟩ := hclose.eq_cons
      exact ⟨_, by simp, hw.group hx hy⟩
  | bare | skipped | missing | resumed | discarded => cases hfs
  | finished => exact ⟨[], rfl, rfl, rfl⟩
  | whole _ _ ihe ihr =>
      obtain ⟨rfl, rfl⟩ := List.nil_eq_append_iff.mp hfs
      obtain ⟨w, rfl, hw⟩ := ihe rfl
      obtain ⟨_, rfl, rfl, rfl⟩ := ihr rfl
      exact ⟨w, rfl, hw⟩

mutual

/-- **Completeness.**  An expression is read without complaints where no atom can follow. -/
theorem Grammar.Expression.reads (e : Expression) {us : List Token} (hus : MayFollow us) :
    Reads .expression (e.word ++ us) e.term [] us := by
  match e with
  | .abstraction sign name mark body =>
      have hbody := body.reads hus
      exact .abstraction sign.2 (.binding (.present name.2) (.present mark.2) hbody)
  | .application func args =>
      obtain ⟨x, rest, hword, hx⟩ := func.word_eq_cons
      have hfunc := func.reads (args.word ++ us)
      have hargs := args.reads func.term hus
      rw [Expression.word, List.append_assoc]
      refine .expression ?_ (.application hfunc hargs)
      rcases hx with hx | hx <;> simp [hword, hx]

/-- An atom is read without complaints, whatever follows. -/
theorem Grammar.Atom.reads (a : Atom) (us : List Token) :
    Reads .atom (a.word ++ us) a.term [] us := by
  match a with
  | .name token => exact .name token.2
  | .group left inner right =>
      have hright : MayFollow (right.1 :: us) := by
        simp [mayFollow_cons, right.2, TokenKind.begins]
      have hinner := inner.reads hright
      simp only [Atom.word, List.cons_append, List.append_assoc, List.nil_append]
      exact .group left.2 hinner (.present right.2)

/-- A row of atoms is read without complaints where no atom can follow. -/
theorem Grammar.Atoms.reads (as : Atoms) (f : Term) {us : List Token} (hus : MayFollow us) :
    Reads (.arguments f) (as.word ++ us) (as.applied f) [] us := by
  match as with
  | .nil => exact .noArgument hus
  | .cons first rest =>
      have hfirst := first.reads (rest.word ++ us)
      have hrest := rest.reads (.app f first.term) hus
      rw [Atoms.word, List.append_assoc]
      exact .argument (first.not_mayFollow _) hfirst hrest

end

/-- Readings are unique: a lenient parser can follow one only. -/
theorem Reads.unique {t' : Term} {gs : List Snag} {vs : List Token} (h : Reads k ts t fs us)
    (h' : Reads k ts t' gs vs) : t = t' ∧ us = vs ∧ fs.length = gs.length := by
  let p : Parser := ⟨"", .lenient, ts, []⟩
  obtain ⟨hv, hq⟩ := (h.agrees (p := p) rfl).of_lenient rfl
  obtain ⟨hv', hq'⟩ := (h'.agrees (p := p) rfl).of_lenient rfl
  have heq : p.after fs us = p.after gs vs := hq.symm.trans hq'
  refine ⟨Except.ok.inj (hv.symm.trans hv'), congrArg Parser.rest heq, ?_⟩
  simpa [Parser.after] using congrArg (·.faults.length) heq

/-- A derivation of all tokens is a reading to the end. -/
theorem Grammar.Expression.reads_whole (e : Expression) : Reads .whole e.word e.term [] [] := by
  have h := e.reads MayFollow.nil
  rw [List.append_nil] at h
  exact .whole h .finished

/-- A reading to the end has no complaints exactly where the tokens are a sentence. -/
theorem Reads.eq_nil_iff_sentence (h : Reads .whole ts t fs []) : fs = [] ↔ Sentence ts := by
  constructor
  · rintro rfl
    obtain ⟨w, rfl, e, he, -⟩ := h.derives
    exact ⟨e, by simpa using he⟩
  · rintro ⟨e, rfl⟩
    simpa using (h.unique e.reads_whole).2.2

theorem tokenize_dropLast (source : String) : (tokenize source).dropLast = tokens source := by
  simp [tokenize]

/-- **Strict parsing recognizes the grammar.**  A source has a term exactly where its tokens are
derived by an expression, which is then the only one, and the term is that of the derivation.
Every other source has a fault. -/
theorem parse_recognizes (source : String) :
    (∀ t, parse source = .ok t ↔
      ∃ d : Expression, d.word = (tokenize source).dropLast ∧ d.term = t ∧
        ∀ e : Expression, e.word = (tokenize source).dropLast → e = d) ∧
    ((∃ fault, parse source = .error fault) ↔ ¬ Sentence (tokenize source).dropLast) := by
  rw [tokenize_dropLast]
  obtain ⟨t, fs, h⟩ := Reads.exists_whole (tokens source)
  have hs := h.eq_nil_iff_sentence
  cases fs with
  | nil =>
      obtain ⟨d, hd⟩ := hs.mp rfl
      have ht : d.term = t := ((hd ▸ d.reads_whole).unique h).1
      refine ⟨fun u => ?_, by simp [h.parse_eq_ok, hs.mp rfl]⟩
      rw [h.parse_eq_ok, Except.ok.injEq]
      constructor
      · rintro rfl
        exact ⟨d, hd, ht, fun e he => Expression.word_injective (he.trans hd.symm)⟩
      · rintro ⟨e, he, rfl, -⟩
        rw [← ht, Expression.word_injective (he.trans hd.symm)]
  | cons s fs =>
      have hno : ¬ Sentence (tokens source) := fun h => by simpa using hs.mpr h
      refine ⟨fun u => ?_, by simp [h.parse_eq_error, hno]⟩
      rw [h.parse_eq_error]
      exact ⟨fun h => by simp at h, fun ⟨d, hd, _⟩ => absurd ⟨d, hd⟩ hno⟩

end Tromp
