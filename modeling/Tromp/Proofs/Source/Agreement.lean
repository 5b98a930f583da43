import Tromp.Proofs.Source.Reading

/-!
# The parser follows its rules

`Reads.agrees` says that each function of the parser does what the rules of `Reads` say, in both
modes: a lenient parser goes on to the end of the reading and records a fault for each complaint,
and a strict one does the same if there is no complaint and else stops at the first.  This is all
in which the two modes differ, and the last theorem says so of whole sources.
-/

namespace Tromp

open Grammar

variable {m n : Nat} {α β : Type}

namespace Parser

/-- The parser with the tokens `us` before it, after the complaints `fs`. -/
def after (p : Parser) (fs : List Snag) (us : List Token) : Parser :=
  { p with rest := us, faults := p.faults ++ fs.map (·.fault p.source) }

variable (p : Parser) (fs gs : List Snag) (us vs : List Token)

@[simp] theorem after_after : (p.after fs us).after gs vs = p.after (fs ++ gs) vs := by
  simp [after]

theorem moveTo_eq_after : p.moveTo us = p.after [] us := by simp [after, moveTo]

end Parser

/-- A step of the parser `p` agrees with a reading: where it ends, it has the value of the reading
and stands behind it, and only a parser that recovers has complained; where it stops, it is strict
and stands at the first complaint. -/
def Outcome.Agrees (p : Parser) (value : α) (fs : List Snag) (us : List Token) :
    Outcome n α → Prop
  | .done v q _ => (p.mode = .strict → fs = []) ∧ v = value ∧ q = p.after fs us
  | .stopped f q =>
      p.mode = .strict ∧ ∃ s ss, fs = s :: ss ∧ f = s.fault p.source ∧ q = p.moveTo s.rest

namespace Outcome

variable {p : Parser} {a : α} {b : β} {fs gs : List Snag} {us vs : List Token}

@[simp] theorem agrees_weaken {h : m ≤ n} {o : Outcome m α} :
    (o.weaken h).Agrees p a fs us ↔ o.Agrees p a fs us := by
  cases o <;> exact Iff.rfl

/-- What a step agrees with does not depend on where the parser stood before it. -/
theorem agrees_moveTo {o : Outcome n α} (us : List Token) :
    o.Agrees (p.moveTo us) a fs vs ↔ o.Agrees p a fs vs := by
  cases o <;> exact Iff.rfl

/-- A step after a reading continues it. -/
theorem Agrees.append {o : Outcome n β} (hfs : p.mode = .strict → fs = [])
    (h : o.Agrees (p.after fs us) b gs vs) : o.Agrees p b (fs ++ gs) vs := by
  cases o with
  | done v q le =>
      obtain ⟨hgs, hv, hq⟩ := h
      refine ⟨fun hp => ?_, hv, by simpa using hq⟩
      simp [hfs hp, hgs hp]
  | stopped f q =>
      obtain ⟨hp, s, ss, hgs, hf, hq⟩ := h
      refine ⟨hp, s, ss, ?_, hf, by simpa [Parser.moveTo_eq_after, hfs hp] using hq⟩
      simp [hfs hp, hgs]

/-- One step after another: a parser that has stopped stays where it is, and any other goes on
from behind the first reading. -/
theorem Agrees.andThen {o : Outcome m α}
    {next : (v : α) → (q : Parser) → q.rest.length ≤ m → Outcome n β}
    (ho : o.Agrees p a fs us)
    (hnext : ∀ le, (next a (p.after fs us) le).Agrees (p.after fs us) b gs vs) :
    (o.andThen next).Agrees p b (fs ++ gs) vs := by
  cases o with
  | done v q le =>
      obtain ⟨hfs, rfl, rfl⟩ := ho
      exact (hnext le).append hfs
  | stopped f q =>
      obtain ⟨hp, s, ss, rfl, hf, hq⟩ := ho
      exact ⟨hp, s, ss ++ gs, rfl, hf, hq⟩

/-- A step that goes on by giving its value another form. -/
theorem Agrees.map {o : Outcome m α} {g : α → β}
    {le : ∀ q : Parser, q.rest.length ≤ m → q.rest.length ≤ n} (ho : o.Agrees p a fs us) :
    (o.andThen fun v q h => (done (g v) q (le q h) : Outcome n β)).Agrees p (g a) fs us := by
  have h : (o.andThen fun v q h => (done (g v) q (le q h) : Outcome n β)).Agrees p (g a)
      (fs ++ []) us :=
    ho.andThen fun _ => ⟨fun _ => rfl, rfl, by simp [Parser.after]⟩
  simpa using h

/-- A parser that recovers always gives a result, and has every complaint on its list. -/
theorem Agrees.of_lenient {o : Outcome n α} (h : o.Agrees p a fs us) (hp : p.mode = .lenient) :
    o.result = .ok a ∧ o.parser = p.after fs us := by
  cases o with
  | done v q le =>
      obtain ⟨-, rfl, rfl⟩ := h
      exact ⟨rfl, rfl⟩
  | stopped f q =>
      have hs := h.1
      rw [hp] at hs
      cases hs

/-- Without complaints there is a result in both modes. -/
theorem Agrees.result_eq_ok {o : Outcome n α} (h : o.Agrees p a [] us) : o.result = .ok a := by
  cases o with
  | done v q le =>
      obtain ⟨-, rfl, -⟩ := h
      rfl
  | stopped f q =>
      obtain ⟨-, s, ss, hnil, -⟩ := h
      cases hnil

/-- A strict parser gives the first complaint as its fault. -/
theorem Agrees.result_eq_error {o : Outcome n α} {s : Snag} (h : o.Agrees p a (s :: fs) us)
    (hp : p.mode = .strict) : o.result = .error (s.fault p.source) := by
  cases o with
  | done v q le => cases h.1 hp
  | stopped f q =>
      obtain ⟨-, s', ss, hcons, rfl, -⟩ := h
      obtain ⟨rfl, rfl⟩ := List.cons.inj hcons
      rfl

end Outcome

namespace Parser

variable {p : Parser} {fs : List Snag} {ts us : List Token} {t : Term}

/-- A complaint agrees with a reading that complains where the parser stands. -/
theorem complain_agrees (c : Complaint) (hp : p.rest = ts) :
    (p.complain c).Agrees p () [⟨c, ts⟩] ts := by
  obtain ⟨source, mode, rest, faults⟩ := p
  cases hp
  cases mode with
  | strict => exact ⟨rfl, _, _, rfl, rfl, rfl⟩
  | lenient => exact ⟨by simp, rfl, rfl⟩

theorem current_eq_of_rest {x : Token} (hp : p.rest = x :: us) : p.current = x := by
  simp [current, hp]

theorem current_kind_ne {kind : TokenKind} (hk : kind ≠ .finish)
    (hx : ∀ x ∈ p.rest.head?, x.kind ≠ kind) : p.current.kind ≠ kind := by
  cases hp : p.rest with
  | nil => simpa [current, hp, finishToken] using hk.symm
  | cons x us => simpa [current, hp] using hx

theorem advance_eq_after {x : Token} (hp : p.rest = x :: us) : p.advance = p.after [] us := by
  simp [advance, moveTo_eq_after, hp]

theorem expect_agrees {kind : TokenKind} {c : Complaint} {x : Option Token}
    (hk : kind ≠ .finish) (hp : p.rest = ts) (h : Takes kind c ts x fs us) :
    (p.expect kind c).Agrees p x.isSome fs us := by
  unfold expect
  cases h with
  | present hx =>
      rw [if_pos (by rw [current_eq_of_rest hp]; exact hx)]
      exact ⟨fun _ => rfl, rfl, advance_eq_after hp⟩
  | absent hx =>
      rw [if_neg (current_kind_ne hk (hp ▸ hx))]
      exact (complain_agrees c hp).map

theorem binder_agrees {x : Option Token} (hp : p.rest = ts)
    (h : Takes .identifier .expectedName ts x fs us) :
    p.binder.Agrees p (binderName x) fs us := by
  unfold binder
  cases h with
  | present hx =>
      rw [if_pos (by rw [current_eq_of_rest hp]; exact hx), current_eq_of_rest hp]
      exact ⟨fun _ => rfl, rfl, advance_eq_after hp⟩
  | absent hx =>
      rw [if_neg (current_kind_ne (by decide) (hp ▸ hx))]
      exact (complain_agrees .expectedName hp).map

theorem missingAtom_agrees (hp : p.rest = ts) :
    p.missingAtom.Agrees p hole [⟨.expectedAtom, ts⟩] ts :=
  (complain_agrees .expectedAtom hp).map

/-- After a lambda sign, an expression is what the sign begins. -/
theorem expression_agrees_of_lambda {x : Token} (hp : p.rest = x :: ts) (hx : x.kind = .lambda)
    (h : (p.moveTo ts).binding.Agrees (p.moveTo ts) t fs us) : p.expression.Agrees p t fs us := by
  obtain ⟨source, mode, rest, faults⟩ := p
  cases hp
  rw [expression]
  simp only [hx, if_true]
  exact Outcome.agrees_weaken.mpr ((Outcome.agrees_moveTo _).mp h)

theorem expression_agrees_of_application (hx : ∀ x ∈ p.rest.head?, x.kind ≠ .lambda)
    (h : p.application.Agrees p t fs us) : p.expression.Agrees p t fs us := by
  obtain ⟨source, mode, rest, faults⟩ := p
  rw [expression]
  cases rest with
  | nil => exact Outcome.agrees_weaken.mpr h
  | cons x rest =>
      have hne : x.kind ≠ .lambda := hx x rfl
      simpa [hne] using h

/-- An atom that is not missing is read from behind its first token. -/
theorem atom_agrees_iff {x : Token} (hp : p.rest = x :: ts) (hx : x.kind ≠ .closing) :
    p.atom.Agrees p t fs us ↔ (p.atomAfter x ts).Agrees p t fs us := by
  obtain ⟨source, mode, rest, faults⟩ := p
  cases hp
  rw [atom]
  simp [hx]

/-- An atom is missing at the end and before a closing parenthesis. -/
theorem atom_agrees_of_missing (hp : p.rest = ts) (hx : ∀ x ∈ ts.head?, x.kind = .closing) :
    p.atom.Agrees p hole [⟨.expectedAtom, ts⟩] ts := by
  have hm := missingAtom_agrees hp
  obtain ⟨source, mode, rest, faults⟩ := p
  cases hp
  rw [atom]
  cases rest with
  | nil => exact Outcome.agrees_weaken.mpr hm
  | cons x rest =>
      have hc : x.kind = .closing := hx x rfl
      simpa [hc] using hm

theorem arguments_agrees_of_end (f : Term) (hp : p.rest = ts) (hts : MayFollow ts) :
    (arguments f p).Agrees p f [] ts := by
  obtain ⟨source, mode, rest, faults⟩ := p
  cases hp
  rw [arguments]
  cases rest with
  | nil => exact ⟨fun _ => rfl, rfl, by simp [after]⟩
  | cons x rest =>
      have hx := mayFollow_cons.mp hts
      simp [hx, Outcome.Agrees, after]

theorem arguments_agrees_of_atom {f a : Term} {gs : List Snag} {vs : List Token}
    (hts : ¬ MayFollow p.rest) (harg : p.atom.Agrees p a fs us)
    (hrest : (arguments (.app f a) (p.after fs us)).Agrees (p.after fs us) t gs vs) :
    (arguments f p).Agrees p t (fs ++ gs) vs := by
  obtain ⟨source, mode, rest, faults⟩ := p
  rw [arguments]
  cases rest with
  | nil => exact absurd MayFollow.nil hts
  | cons x rest =>
      have hx : x.kind.begins = true := by simpa [mayFollow_cons] using hts
      have hne : x.kind ≠ .closing := by rintro hc; simp [hc, TokenKind.begins] at hx
      simp only [hx, if_true]
      exact ((atom_agrees_iff rfl hne).mp harg).andThen fun _ => Outcome.agrees_weaken.mpr hrest

/-- Whether something can follow shows in the token a parser looks at. -/
theorem moveTo_begins_eq_false_iff (p : Parser) (us : List Token) :
    (p.moveTo us).current.kind.begins = false ↔ MayFollow us := by
  cases us with
  | nil => simp [MayFollow, current, moveTo, finishToken, TokenKind.begins]
  | cons x us => simp [mayFollow_cons, current, moveTo]

theorem trailing_agrees_of_end (f : Term) (hp : p.rest = []) :
    (trailing f p).Agrees p f [] [] := by
  obtain ⟨source, mode, rest, faults⟩ := p
  cases hp
  rw [trailing]
  exact ⟨fun _ => rfl, rfl, by simp [after]⟩

/-- A token that trails is skipped, and where nothing can begin after it the rest trails too. -/
theorem trailing_agrees_of_discarded {f : Term} {x : Token} (hp : p.rest = x :: ts)
    (hts : MayFollow ts) (hrest : ∀ q : Parser, q.rest = ts → (trailing f q).Agrees q t fs us) :
    (trailing f p).Agrees p t (⟨.trailingToken, x :: ts⟩ :: fs) us := by
  have hc := complain_agrees .trailingToken hp
  obtain ⟨source, mode, rest, faults⟩ := p
  cases hp
  rw [trailing]
  refine hc.andThen fun _ => (Outcome.agrees_moveTo ts).mp ?_
  simp only [(moveTo_begins_eq_false_iff _ ts).mpr hts, Bool.false_eq_true, if_false]
  exact Outcome.agrees_weaken.mpr (hrest (moveTo _ ts) rfl)

/-- A token that trails is skipped, and an expression that begins after it is an argument. -/
theorem trailing_agrees_of_resumed {f a : Term} {x : Token} {gs : List Snag} {vs : List Token}
    (hp : p.rest = x :: ts) (hts : ¬ MayFollow ts)
    (harg : ∀ q : Parser, q.rest = ts → q.expression.Agrees q a fs us)
    (hrest : ∀ q : Parser, q.rest = us → (trailing (.app f a) q).Agrees q t gs vs) :
    (trailing f p).Agrees p t (⟨.trailingToken, x :: ts⟩ :: (fs ++ gs)) vs := by
  have hc := complain_agrees .trailingToken hp
  obtain ⟨source, mode, rest, faults⟩ := p
  cases hp
  rw [trailing]
  refine hc.andThen fun _ => (Outcome.agrees_moveTo ts).mp ?_
  rw [if_pos (eq_true_of_ne_false (mt (moveTo_begins_eq_false_iff _ ts).mp hts))]
  refine (harg (moveTo _ ts) rfl).andThen fun _ => Outcome.agrees_weaken.mpr ?_
  exact hrest _ rfl

end Parser

/-- The function of the parser that reads a phrase. -/
def Phrase.run (k : Phrase) (p : Parser) : Outcome p.rest.length Term :=
  match k with
  | .expression => p.expression
  | .binding => p.binding
  | .application => p.application
  | .arguments func => Parser.arguments func p
  | .atom => p.atom
  | .trailing term => Parser.trailing term p
  | .whole => p.parseAll

/-- **The parser follows the rules of reading**, in both modes. -/
theorem Reads.agrees {k : Phrase} {ts us : List Token} {t : Term} {fs : List Snag}
    (h : Reads k ts t fs us) {p : Parser} (hp : p.rest = ts) : (k.run p).Agrees p t fs us := by
  -- The later premises of a rule are read by the parser that the earlier ones leave behind.
  induction h generalizing p with
  | abstraction hx _ ih => exact Parser.expression_agrees_of_lambda hp hx (ih rfl)
  | expression hx _ ih => exact Parser.expression_agrees_of_application (hp ▸ hx) (ih hp)
  | binding hname hdot _ ih =>
      simp only [Phrase.run]
      rw [Parser.binding, List.append_assoc]
      refine (Parser.binder_agrees hp hname).andThen fun _ => ?_
      refine (Parser.expect_agrees (by decide) rfl hdot).andThen fun _ => ?_
      exact (ih rfl).map
  | application _ _ ihf iha =>
      simp only [Phrase.run]
      rw [Parser.application]
      exact (ihf hp).andThen fun _ => Outcome.agrees_weaken.mpr (iha rfl)
  | noArgument hts => exact Parser.arguments_agrees_of_end _ hp hts
  | argument hts _ _ iha ihr => exact Parser.arguments_agrees_of_atom (hp ▸ hts) (iha hp) (ihr rfl)
  | name hx =>
      refine (Parser.atom_agrees_iff hp (by simp [hx])).mpr ?_
      rw [Parser.atomAfter]
      simp only [hx]
      exact ⟨fun _ => rfl, rfl, p.moveTo_eq_after _⟩
  | group hx _ hclose ih =>
      refine (Parser.atom_agrees_iff hp (by simp [hx])).mpr ?_
      rw [Parser.atomAfter]
      simp only [hx]
      refine ((Outcome.agrees_moveTo _).mp (ih rfl)).andThen fun _ => ?_
      exact (Parser.expect_agrees (by decide) rfl hclose).map
  | bare hx _ ih =>
      refine (Parser.atom_agrees_iff hp (by simp [hx])).mpr ?_
      rw [Parser.atomAfter]
      simp only [hx]
      exact (Parser.complain_agrees .expectedAtom hp).andThen fun _ =>
        (Outcome.agrees_moveTo _).mp (ih rfl)
  | skipped hx =>
      refine (Parser.atom_agrees_iff hp (by rcases hx with hx | hx <;> simp [hx])).mpr ?_
      rw [Parser.atomAfter]
      rcases hx with hx | hx
      all_goals
        simp only [hx]
        exact (Parser.complain_agrees .expectedAtom hp).andThen fun _ =>
          ⟨fun _ => rfl, rfl, Parser.moveTo_eq_after _ _⟩
  | missing hx => exact Parser.atom_agrees_of_missing hp hx
  | finished => exact Parser.trailing_agrees_of_end _ hp
  | resumed _ hts _ _ iha ihr =>
      exact Parser.trailing_agrees_of_resumed hp hts (fun _ => iha) (fun _ => ihr)
  | discarded _ hts _ ih => exact Parser.trailing_agrees_of_discarded hp hts (fun _ => ih)
  | whole _ _ ihe ihr =>
      simp only [Phrase.run]
      rw [Parser.parseAll]
      exact (ihe hp).andThen fun _ => Outcome.agrees_weaken.mpr (ihr rfl)

section Whole

variable {source : String} {t : Term} {fs : List Snag}

/-- A source is recovered as its tokens are read, with a fault for each complaint. -/
theorem Reads.recover_eq (h : Reads .whole (tokens source) t fs []) :
    recover source = (.ok t, fs.map (·.fault source)) := by
  have ha := h.agrees (p := Parser.start source .lenient) rfl
  obtain ⟨hresult, hparser⟩ := ha.of_lenient rfl
  refine Prod.ext hresult ?_
  exact (congrArg Parser.faults hparser).trans (by simp [Parser.after, Parser.start])

/-- A source without complaints is parsed to the term that is read. -/
theorem Reads.parse_eq_ok (h : Reads .whole (tokens source) t [] []) : parse source = .ok t :=
  (h.agrees (p := Parser.start source .strict) rfl).result_eq_ok

/-- A source with complaints is not parsed: the first of them is the fault. -/
theorem Reads.parse_eq_error {s : Snag} (h : Reads .whole (tokens source) t (s :: fs) []) :
    parse source = .error (s.fault source) :=
  (h.agrees (p := Parser.start source .strict) rfl).result_eq_error rfl

end Whole

/-- **The two modes agree.**  Recovery always gives a term, and has nothing to report exactly where
strict parsing succeeds, which then gives the same term.  Where strict parsing fails, its fault is
the first that recovery reports. -/
theorem recover_agrees_with_parse (source : String) :
    ∃ t faults, recover source = (.ok t, faults) ∧
      (faults = [] ↔ ∃ u, parse source = .ok u) ∧ (faults = [] ↔ parse source = .ok t) ∧
      ∀ fault, parse source = .error fault ↔ faults.head? = some fault := by
  obtain ⟨t, fs, h⟩ := Reads.exists_whole (tokens source)
  refine ⟨t, _, h.recover_eq, ?_⟩
  cases fs with
  | nil => simp [h.parse_eq_ok]
  | cons s fs => simp [h.parse_eq_error]

end Tromp
