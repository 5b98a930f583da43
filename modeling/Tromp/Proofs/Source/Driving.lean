import Tromp.Proofs.Source.Diagnosis

/-!
# Driving a parser

The functions of a parser are not only called by each other.  A caller who holds a parser can make
any calls in any order, also where no call of the grammar would be made: an abstraction is asked for
where no lambda sign stands, an application before a closing parenthesis, anything at the end of the
source.  After a fault at which a strict parser stopped it can go on from where the parser stands.

Whatever is called, the parser stays sane (`drive_isSane`).

1.  Every call is a reading of what is left, whether it was meant to begin there or not
    (`Call.exists_agrees`).  A reading consumes tokens from the left and complains on the way, each
    time not before the last one.
2.  So after any calls a parser has a reading of its source behind it, from the first token to the
    one it looks at (`Parser.HasRead`).  This is the invariant that each call preserves.
3.  Positions of tokens increase, and so those of the recorded faults do not decrease.
-/

namespace Tromp

open Grammar

/-! ### Calls -/

/-- What can be asked of a parser. -/
inductive Call where
  | advance
  | looksAt (kinds : List TokenKind)
  | expect (kind : TokenKind) (complaint : Complaint)
  | complain (complaint : Complaint)
  | expression
  | abstraction
  | application
  | atom
  /-- An expression and all that follows it. -/
  | whole

/-- What a call gives. -/
inductive Reply where
  | token (x : Token)
  | answer (b : Bool)
  | nothing
  | term (t : Term)

/-- A step that gives its value another form. -/
def Outcome.map {n : Nat} {α β : Type} (f : α → β) : Outcome n α → Outcome n β
  | done value next le => done (f value) next le
  | stopped fault next => stopped fault next

/-- What a parser does when it is called. -/
def Call.run (c : Call) (p : Parser) : Outcome p.rest.length Reply :=
  match c with
  | .advance => .done (.token p.current) p.advance (List.tail_suffix p.rest).length_le
  | .looksAt kinds => .done (.answer (p.looksAt kinds)) p (Nat.le_refl _)
  | .expect kind complaint => (p.expect kind complaint).map .answer
  | .complain complaint => (p.complain complaint).map fun _ => .nothing
  | .expression => p.expression.map .term
  | .abstraction => p.abstraction.map .term
  | .application => p.application.map .term
  | .atom => p.atom.map .term
  | .whole => p.parseAll.map .term

/-- A parser after some calls, each made where the one before it ended or stopped. -/
def Parser.drive (p : Parser) (calls : List Call) : Parser :=
  calls.foldl (fun q c => (c.run q).parser) p

/-! ### Every call is a reading -/

section Readings

variable {m n : Nat} {α β : Type} {p : Parser} {a : α} {fs : List Snag} {ts us : List Token}

theorem Outcome.Agrees.map_value {o : Outcome n α} (h : o.Agrees p a fs us) (f : α → β) :
    (o.map f).Agrees p (f a) fs us := by
  cases o with
  | done v q le =>
      obtain ⟨hfs, rfl, hq⟩ := h
      exact ⟨hfs, rfl, hq⟩
  | stopped fault q => exact h

theorem Parser.advance_agrees (p : Parser) (value : α) (le : p.advance.rest.length ≤ n) :
    (Outcome.done value p.advance le).Agrees p value [] p.rest.tail :=
  ⟨fun _ => rfl, rfl, p.moveTo_eq_after _⟩

/-- Whatever kind is expected, its token is read or there is a complaint. -/
theorem Parser.exists_expect_agrees (p : Parser) (kind : TokenKind) (c : Complaint) :
    ∃ b fs us, (p.expect kind c).Agrees p b fs us ∧ Consumes p.rest us fs := by
  unfold expect
  split
  next => exact ⟨_, _, _, p.advance_agrees _ _, .of_suffix (List.tail_suffix _)⟩
  next => exact ⟨_, _, _, (complain_agrees c rfl).map, (Consumes.refl _).snag c⟩

/-- An abstraction is read from behind the token that stands for its lambda sign. -/
theorem Parser.exists_abstraction_agrees (p : Parser) :
    ∃ t fs us, p.abstraction.Agrees p t fs us ∧ Consumes p.rest us fs := by
  obtain ⟨t, fs, us, h⟩ := Reads.exists_binding p.rest.tail
  refine ⟨t, fs, us, ?_, (Consumes.of_suffix (List.tail_suffix _)).trans h.consumes⟩
  exact Outcome.agrees_weaken.mpr ((Outcome.agrees_moveTo _).mp (h.agrees (p := p.advance) rfl))

/-- **Every call is a reading**, wherever it is made.  Only the reading of the whole is known to go
on to the end. -/
theorem Call.exists_agrees (c : Call) (p : Parser) :
    ∃ reply fs us, (c.run p).Agrees p reply fs us ∧ Consumes p.rest us fs ∧
      (c = .whole → us = []) := by
  -- What reads a phrase follows the rules of reading, and these can be followed from any token.
  have hphrase : ∀ {k : Phrase} {t : Term} {fs : List Snag} {us : List Token},
      Reads k p.rest t fs us → ((k.run p).map Reply.term).Agrees p (.term t) fs us ∧
        Consumes p.rest us fs :=
    fun h => ⟨(h.agrees rfl).map_value _, h.consumes⟩
  cases c with
  | advance =>
      exact ⟨_, _, _, p.advance_agrees _ _, .of_suffix (List.tail_suffix _), nofun⟩
  | looksAt kinds =>
      exact ⟨_, [], p.rest, ⟨fun _ => rfl, rfl, p.moveTo_eq_after _⟩, .refl _, nofun⟩
  | expect kind complaint =>
      obtain ⟨b, fs, us, hagrees, hconsumes⟩ := p.exists_expect_agrees kind complaint
      exact ⟨_, fs, us, hagrees.map_value _, hconsumes, nofun⟩
  | complain complaint =>
      have hagrees := Parser.complain_agrees (p := p) complaint rfl
      exact ⟨_, _, _, hagrees.map_value _, (Consumes.refl _).snag complaint, nofun⟩
  | expression =>
      obtain ⟨t, fs, us, h⟩ := Reads.exists_expression p.rest
      exact ⟨_, fs, us, (hphrase h).1, (hphrase h).2, nofun⟩
  | abstraction =>
      obtain ⟨t, fs, us, hagrees, hconsumes⟩ := p.exists_abstraction_agrees
      exact ⟨_, fs, us, hagrees.map_value _, hconsumes, nofun⟩
  | application =>
      obtain ⟨t, fs, us, h⟩ := Reads.exists_application p.rest
      exact ⟨_, fs, us, (hphrase h).1, (hphrase h).2, nofun⟩
  | atom =>
      obtain ⟨t, fs, us, h⟩ := Reads.exists_atom p.rest
      exact ⟨_, fs, us, (hphrase h).1, (hphrase h).2, nofun⟩
  | whole =>
      obtain ⟨t, fs, h⟩ := Reads.exists_whole p.rest
      exact ⟨_, fs, [], (hphrase h).1, (hphrase h).2, fun _ => rfl⟩

end Readings

/-! ### What a parser has behind it -/

/-- A parser of a source has read it from the first token to the one it looks at, with some snags,
all of which it recorded. -/
structure Parser.HasRead (source : String) (mode : Mode) (fs : List Snag) (p : Parser) : Prop where
  source_eq : p.source = source
  mode_eq : p.mode = mode
  faults_eq : p.faults = fs.map (·.fault source)
  consumes : Consumes (tokens source) p.rest fs
  strict : mode = .strict → fs = []

/-- One parser comes before another: the later one has not gone back, and has forgotten no fault. -/
structure Parser.Precedes (p q : Parser) : Prop where
  position_le : p.position ≤ q.position
  faults_prefix : p.faults <+: q.faults

namespace Parser

variable {source : String} {mode : Mode} {fs gs : List Snag} {us : List Token} {p q : Parser}

theorem Precedes.refl (p : Parser) : p.Precedes p := ⟨Nat.le_refl _, List.prefix_refl _⟩

theorem Precedes.trans {r : Parser} (h : p.Precedes q) (h' : q.Precedes r) : p.Precedes r :=
  ⟨Nat.le_trans h.position_le h'.position_le, h.faults_prefix.trans h'.faults_prefix⟩

/-- A parser after a reading comes after it. -/
theorem precedes_after (p : Parser) (fs : List Snag) (h : us.length ≤ p.rest.length) :
    p.Precedes (p.after fs us) :=
  ⟨Nat.sub_le_sub_left h _, List.prefix_append _ _⟩

theorem hasRead_start (source : String) (mode : Mode) :
    (start source mode).HasRead source mode [] :=
  ⟨rfl, rfl, rfl, .refl _, fun _ => rfl⟩

theorem HasRead.after (h : p.HasRead source mode fs) (hconsumes : Consumes p.rest us gs)
    (hstrict : mode = .strict → gs = []) : (p.after gs us).HasRead source mode (fs ++ gs) where
  source_eq := h.source_eq
  mode_eq := h.mode_eq
  faults_eq := by simp [Parser.after, h.faults_eq, h.source_eq]
  consumes := h.consumes.trans hconsumes
  strict hmode := by rw [h.strict hmode, hstrict hmode, List.append_nil]

/-- **A call goes on with the reading**, and leaves a parser that comes after the one before it. -/
theorem HasRead.call (h : p.HasRead source mode fs) (c : Call) :
    (∃ gs, (c.run p).parser.HasRead source mode (fs ++ gs)) ∧ p.Precedes (c.run p).parser := by
  obtain ⟨reply, gs, us, hagrees, hconsumes, -⟩ := c.exists_agrees p
  cases hrun : c.run p with
  | done value q le =>
      rw [hrun] at hagrees
      obtain ⟨hstrict, -, rfl⟩ := hagrees
      rw [h.mode_eq] at hstrict
      exact ⟨⟨gs, h.after hconsumes hstrict⟩, p.precedes_after gs hconsumes.rest.length_le⟩
  | stopped fault q =>
      rw [hrun] at hagrees
      obtain ⟨-, s, ss, rfl, -, rfl⟩ := hagrees
      have hs := hconsumes.snags s (List.mem_cons_self)
      rw [Outcome.parser, moveTo_eq_after]
      exact ⟨⟨[], h.after (.of_suffix hs) fun _ => rfl⟩, p.precedes_after [] hs.length_le⟩

/-- **A run goes on with the reading**: by induction on the calls. -/
theorem HasRead.drive (h : p.HasRead source mode fs) (calls : List Call) :
    (∃ gs, (p.drive calls).HasRead source mode gs) ∧ p.Precedes (p.drive calls) := by
  induction calls generalizing p fs with
  | nil => exact ⟨⟨fs, h⟩, .refl p⟩
  | cons c calls ih =>
      obtain ⟨⟨gs, hcall⟩, hfirst⟩ := h.call c
      obtain ⟨hdrive, hrest⟩ := ih hcall
      exact ⟨hdrive, hfirst.trans hrest⟩

end Parser

/-! ### Positions -/

/-- What is to be read later does not stand before what is to be read first. -/
theorem position_le_of_suffix {source : String} {us vs : List Token} (hus : us <:+ tokens source)
    (hvs : vs <:+ us) :
    (us.headD (finishToken source)).position ≤ (vs.headD (finishToken source)).position := by
  have hpair : (us ++ [finishToken source]).Pairwise fun x y => x.position < y.position :=
    (increasing_tokenize source).sublist (hus.sublist.append_right _)
  have hmem : vs.headD (finishToken source) ∈ us ++ [finishToken source] := by
    cases vs with
    | nil => simp
    | cons y vs => exact List.mem_append_left _ (hvs.subset List.mem_cons_self)
  cases us with
  | nil =>
      obtain rfl := List.suffix_nil.mp hvs
      exact Nat.le_refl _
  | cons x us =>
      rcases List.mem_cons.mp hmem with heq | hlater
      · exact Nat.le_of_eq (congrArg Token.position heq.symm)
      · exact Nat.le_of_lt ((List.pairwise_cons.mp hpair).1 _ hlater)

/-- What holds of a parser of a source at all times. -/
structure Parser.IsSane (source : String) (mode : Mode) (p : Parser) : Prop where
  source_eq : p.source = source
  mode_eq : p.mode = mode
  /-- Its position is that of a token, the one it looks at. -/
  current_eq : (tokenize source)[p.position]? = some p.current
  /-- It has not passed the token for the end, which is the last one. -/
  position_le : p.position ≤ (tokens source).length
  /-- A strict parser records no fault. -/
  faults_eq_nil : mode = .strict → p.faults = []
  /-- The faults are recorded in the order of their positions. -/
  faults_ordered : p.faults.Pairwise fun f g => f.position ≤ g.position

namespace Parser.HasRead

variable {source : String} {mode : Mode} {fs : List Snag} {p : Parser}

theorem length_rest_le (h : p.HasRead source mode fs) :
    p.rest.length ≤ (tokens source).length :=
  h.consumes.rest.length_le

theorem position_eq (h : p.HasRead source mode fs) :
    p.position = (tokens source).length - p.rest.length := by
  rw [position, h.source_eq]

theorem current_eq (h : p.HasRead source mode fs) :
    (tokenize source)[p.position]? = some p.current := by
  obtain ⟨before, hbefore⟩ := h.consumes.rest
  have hposition : p.position = before.length := by
    rw [h.position_eq, ← hbefore, List.length_append, Nat.add_sub_cancel_right]
  rw [tokenize, ← hbefore, List.append_assoc, hposition,
    List.getElem?_append_right (Nat.le_refl _), Nat.sub_self, current, h.source_eq]
  cases p.rest <;> rfl

theorem faults_ordered (h : p.HasRead source mode fs) :
    p.faults.Pairwise fun f g => f.position ≤ g.position := by
  rw [h.faults_eq, List.pairwise_map]
  refine h.consumes.ordered.imp_of_mem ?_
  intro s s' hs _ hsuffix
  exact Int.ofNat_le.mpr (position_le_of_suffix (h.consumes.snags s hs) hsuffix)

theorem isSane (h : p.HasRead source mode fs) : p.IsSane source mode where
  source_eq := h.source_eq
  mode_eq := h.mode_eq
  current_eq := h.current_eq
  position_le := by rw [h.position_eq]; exact Nat.sub_le _ _
  faults_eq_nil hmode := by rw [h.faults_eq, h.strict hmode, List.map_nil]
  faults_ordered := h.faults_ordered

end Parser.HasRead

/-! ### How calls end -/

/-- How a call ends. -/
inductive Call.Ends (c : Call) (p : Parser) : Prop
  /-- There is a reply; behind all that can be read the parser looks at the end. -/
  | replied (reply : Reply) (q : Parser) (le : q.rest.length ≤ p.rest.length)
      (hrun : c.run p = .done reply q le) (hend : c = .whole → q.current = finishToken p.source)
  /-- A strict parser stops at a token that it complains about, and records nothing. -/
  | stopped (fault : SyntaxFault) (q : Parser) (hrun : c.run p = .stopped fault q)
      (hmode : p.mode = .strict) (hfault : fault = .atToken fault.complaint q.current p.source)
      (hfaults : q.faults = p.faults)

theorem Call.ends (c : Call) (p : Parser) : c.Ends p := by
  obtain ⟨reply, fs, us, hagrees, -, hwhole⟩ := c.exists_agrees p
  cases hrun : c.run p with
  | done value q le =>
      rw [hrun] at hagrees
      obtain ⟨-, -, rfl⟩ := hagrees
      refine .replied _ _ le hrun fun hc => ?_
      rw [Parser.current, Parser.after, hwhole hc]
      rfl
  | stopped fault q =>
      rw [hrun] at hagrees
      obtain ⟨hmode, s, ss, -, rfl, rfl⟩ := hagrees
      exact .stopped _ _ hrun hmode rfl rfl

/-- The turns of the two loops of a parser, that over the atoms of an application and that over what
follows a complete expression, go on by a token at least.  So there are at most as many as there are
tokens left. -/
structure Parser.Progresses (p : Parser) : Prop where
  atom : p.current.kind.begins = true → ∀ t q le, p.atom = .done t q le → p.position < q.position
  skip : p.current.kind ≠ .finish → p.position < p.advance.position

theorem Parser.HasRead.progresses {source : String} {mode : Mode} {fs : List Snag} {p : Parser}
    (h : p.HasRead source mode fs) : p.Progresses := by
  have hlength := h.length_rest_le
  -- Whatever leaves fewer tokens than before has moved the position.
  have hmoved : ∀ {gs : List Snag} {us : List Token}, us.length < p.rest.length →
      p.position < (p.after gs us).position := by
    intro gs us hlt
    have hafter : (p.after gs us).position = (tokens p.source).length - us.length := rfl
    rw [hafter, h.position_eq, h.source_eq]
    omega
  constructor
  · intro hbegins t q le hatom
    obtain ⟨u, gs, us, hreads⟩ := Reads.exists_atom p.rest
    have hagrees : p.atom.Agrees p u gs us := hreads.agrees rfl
    rw [hatom] at hagrees
    obtain ⟨-, -, rfl⟩ := hagrees
    refine hmoved (hreads.length_lt fun hfollow => ?_)
    have hnot := (p.moveTo_begins_eq_false_iff p.rest).mpr hfollow
    exact absurd (hbegins.symm.trans hnot) (by decide)
  · intro hkind
    rw [Parser.advance, Parser.moveTo_eq_after]
    refine hmoved ?_
    cases hrest : p.rest with
    | nil => simp [Parser.current, hrest, finishToken] at hkind
    | cons x us => simp

/-- **A parser stays sane under any driving.**  For every source, in both modes and after any calls,
the position is that of a token, the one the parser looks at.  From there every call ends, and what
reads all that is left ends at the token for the end, unless a strict parser stops.  No further
calls go back or change the faults that are recorded. -/
theorem drive_isSane (source : String) (mode : Mode) (calls : List Call) :
    let p := (Parser.start source mode).drive calls
    p.IsSane source mode ∧ p.Progresses ∧ (∀ c : Call, c.Ends p) ∧
      ∀ more, p.Precedes (p.drive more) := by
  obtain ⟨⟨fs, hread⟩, -⟩ := (Parser.hasRead_start source mode).drive calls
  exact ⟨hread.isSane, hread.progresses, fun c => c.ends _, fun more => (hread.drive more).2⟩

end Tromp
