import Tromp.Proofs.Source.Grammar

/-!
# What a parser reads

`Reads k ts t fs us` says what one run of the recovering parser does, without its state: reading a
phrase of kind `k` from the tokens `ts`, it builds the term `t`, complains at the places `fs` in
this order, and leaves the tokens `us`.  There is one rule for each way that the parser can take,
those of the recovery included, and every other module on parsing argues by induction on these
rules instead of on the parser.

A run without complaints is a derivation of the grammar, and the first complaint of a run is where
a strict parser stops.  So the one relation serves both modes.
-/

namespace Tromp

open Grammar

/-- What is read, with the term that stands before it where there is one. -/
inductive Phrase where
  | expression
  /-- What follows a lambda sign. -/
  | binding
  | application
  /-- The atoms to which a term is applied. -/
  | arguments (func : Term)
  | atom
  /-- What follows a complete expression. -/
  | trailing (term : Term)
  /-- An expression and all that follows it. -/
  | whole

/-- A snag is a complaint and the tokens that are still to be read where it is made. -/
structure Snag where
  complaint : Complaint
  rest : List Token

/-- The fault that is reported for a snag. -/
def Snag.fault (source : String) (s : Snag) : SyntaxFault :=
  .atToken s.complaint (s.rest.headD (finishToken source)) source

/-- Reading one token of a kind, which may be missing. -/
inductive Takes (kind : TokenKind) (complaint : Complaint) :
    List Token → Option Token → List Snag → List Token → Prop
  | present {x : Token} {ts : List Token} (hx : x.kind = kind) :
      Takes kind complaint (x :: ts) (some x) [] ts
  | absent {ts : List Token} (hx : ∀ x ∈ ts.head?, x.kind ≠ kind) :
      Takes kind complaint ts none [⟨complaint, ts⟩] ts

/-- The name that a binder gives: the placeholder if it is missing. -/
def binderName (x : Option Token) : String := (x.map (·.text)).getD placeholder

/-- The variable that stands for a missing atom. -/
def hole : Term := .var (some placeholder) none false

/-- One run of the recovering parser. -/
inductive Reads : Phrase → List Token → Term → List Snag → List Token → Prop
  | abstraction {x : Token} {ts us : List Token} {t : Term} {fs : List Snag}
      (hx : x.kind = .lambda) (hrest : Reads .binding ts t fs us) :
      Reads .expression (x :: ts) t fs us
  | expression {ts us : List Token} {t : Term} {fs : List Snag}
      (hx : ∀ x ∈ ts.head?, x.kind ≠ .lambda) (h : Reads .application ts t fs us) :
      Reads .expression ts t fs us
  | binding {ts us vs ws : List Token} {x y : Option Token} {t : Term} {fs gs hs : List Snag}
      (hname : Takes .identifier .expectedName ts x fs us)
      (hdot : Takes .dot .expectedDot us y gs vs) (hbody : Reads .expression vs t hs ws) :
      Reads .binding ts (.lam (some (binderName x)) none t) (fs ++ gs ++ hs) ws
  | application {ts us vs : List Token} {f t : Term} {fs gs : List Snag}
      (hfunc : Reads .atom ts f fs us) (hargs : Reads (.arguments f) us t gs vs) :
      Reads .application ts t (fs ++ gs) vs
  | noArgument {ts : List Token} {f : Term} (hts : MayFollow ts) :
      Reads (.arguments f) ts f [] ts
  | argument {ts us vs : List Token} {f a t : Term} {fs gs : List Snag} (hts : ¬ MayFollow ts)
      (harg : Reads .atom ts a fs us) (hargs : Reads (.arguments (.app f a)) us t gs vs) :
      Reads (.arguments f) ts t (fs ++ gs) vs
  | name {x : Token} {ts : List Token} (hx : x.kind = .identifier) :
      Reads .atom (x :: ts) (.var (some x.text) none false) [] ts
  | group {x : Token} {ts us vs : List Token} {y : Option Token} {t : Term} {fs gs : List Snag}
      (hx : x.kind = .opening) (hinner : Reads .expression ts t fs us)
      (hclose : Takes .closing .expectedClosing us y gs vs) :
      Reads .atom (x :: ts) t (fs ++ gs) vs
  -- A lambda sign where an atom should stand: the abstraction is read as if in parentheses.
  | bare {x : Token} {ts us : List Token} {t : Term} {fs : List Snag}
      (hx : x.kind = .lambda) (hrest : Reads .binding ts t fs us) :
      Reads .atom (x :: ts) t (⟨.expectedAtom, x :: ts⟩ :: fs) us
  -- A dot where an atom should stand is skipped; a closing parenthesis, below, is left.
  | skipped {x : Token} {ts : List Token} (hx : x.kind = .dot ∨ x.kind = .finish) :
      Reads .atom (x :: ts) hole [⟨.expectedAtom, x :: ts⟩] ts
  | missing {ts : List Token} (hx : ∀ x ∈ ts.head?, x.kind = .closing) :
      Reads .atom ts hole [⟨.expectedAtom, ts⟩] ts
  -- Only a token with which nothing can begin is ever found after a complete expression.
  | finished {f : Term} : Reads (.trailing f) [] f [] []
  | resumed {x : Token} {ts us vs : List Token} {f a t : Term} {fs gs : List Snag}
      (hx : x.kind.begins = false) (hts : ¬ MayFollow ts) (harg : Reads .expression ts a fs us)
      (hrest : Reads (.trailing (.app f a)) us t gs vs) :
      Reads (.trailing f) (x :: ts) t (⟨.trailingToken, x :: ts⟩ :: (fs ++ gs)) vs
  | discarded {x : Token} {ts us : List Token} {f t : Term} {fs : List Snag}
      (hx : x.kind.begins = false) (hts : MayFollow ts) (hrest : Reads (.trailing f) ts t fs us) :
      Reads (.trailing f) (x :: ts) t (⟨.trailingToken, x :: ts⟩ :: fs) us
  | whole {ts us vs : List Token} {f t : Term} {fs gs : List Snag}
      (hexpr : Reads .expression ts f fs us) (hrest : Reads (.trailing f) us t gs vs) :
      Reads .whole ts t (fs ++ gs) vs

variable {k : Phrase} {t : Term} {fs : List Snag} {ts us : List Token}

theorem Takes.length_le {kind : TokenKind} {c : Complaint} {x : Option Token}
    (h : Takes kind c ts x fs us) : us.length ≤ ts.length := by
  cases h <;> simp

theorem Takes.exists (kind : TokenKind) (c : Complaint) (ts : List Token) :
    ∃ x fs us, Takes kind c ts x fs us := by
  by_cases hx : ∀ x ∈ ts.head?, x.kind ≠ kind
  · exact ⟨_, _, _, .absent hx⟩
  · cases ts with
    | nil => simp at hx
    | cons x ts => exact ⟨_, _, _, .present (by simpa using hx)⟩

/-- Reading never gives tokens back. -/
theorem Reads.length_le (h : Reads k ts t fs us) : us.length ≤ ts.length := by
  induction h with
  | abstraction _ _ ih => simp only [List.length_cons]; omega
  | expression _ _ ih => exact ih
  | binding hname hdot _ ih =>
      have hn := hname.length_le
      have hd := hdot.length_le
      omega
  | application _ _ ihf iha => omega
  | noArgument => exact Nat.le_refl _
  | argument _ _ _ iha ihr => omega
  | name => simp
  | group _ _ hclose ih =>
      have hc := hclose.length_le
      simp only [List.length_cons]
      omega
  | bare _ _ ih => simp only [List.length_cons]; omega
  | skipped => simp
  | missing => exact Nat.le_refl _
  | finished => exact Nat.le_refl _
  | resumed _ _ _ _ iha ihr => simp only [List.length_cons]; omega
  | discarded _ _ _ ih => simp only [List.length_cons]; omega
  | whole _ _ ihe ihr => omega

/-- An atom that begins with a token takes it. -/
theorem Reads.length_lt (h : Reads .atom ts t fs us) (hts : ¬ MayFollow ts) :
    us.length < ts.length := by
  cases h with
  | name => simp
  | group _ hinner hclose =>
      have hi := hinner.length_le
      have hc := hclose.length_le
      simp only [List.length_cons]
      omega
  | bare _ hrest =>
      have hr := hrest.length_le
      simp only [List.length_cons]
      omega
  | skipped => simp
  | missing hx =>
      refine absurd ?_ hts
      intro x hmem
      simp [hx x hmem, TokenKind.begins]

/-- An atom is read at one place, everything else up to where no atom can follow. -/
theorem Reads.mayFollow (h : Reads k ts t fs us) (hk : k ≠ .atom) : MayFollow us := by
  induction h with
  | abstraction _ _ ih | expression _ _ ih => exact ih (by simp)
  | binding _ _ _ ih => exact ih (by simp)
  | application _ _ _ ih | argument _ _ _ _ ih | whole _ _ _ ih => exact ih (by simp)
  | noArgument hts => exact hts
  | name | group | bare | skipped | missing => exact absurd rfl hk
  | finished => exact MayFollow.nil
  | resumed _ _ _ _ _ ih | discarded _ _ _ ih => exact ih (by simp)

mutual

/-- Every row of tokens can be read as any phrase.  The parser descends in the same way. -/
theorem Reads.exists_expression (ts : List Token) :
    ∃ t fs us, Reads .expression ts t fs us := by
  by_cases hx : ∀ x ∈ ts.head?, x.kind ≠ .lambda
  · obtain ⟨t, fs, us, h⟩ := Reads.exists_application ts
    exact ⟨t, fs, us, .expression hx h⟩
  · match ts, hx with
    | [], hx => simp at hx
    | x :: rest, hx =>
        obtain ⟨t, fs, us, h⟩ := Reads.exists_binding rest
        exact ⟨t, fs, us, .abstraction (by simpa using hx) h⟩
termination_by 8 * ts.length + 3

theorem Reads.exists_binding (ts : List Token) : ∃ t fs us, Reads .binding ts t fs us := by
  obtain ⟨x, fs, us, hname⟩ := Takes.exists .identifier .expectedName ts
  obtain ⟨y, gs, vs, hdot⟩ := Takes.exists .dot .expectedDot us
  have hn := hname.length_le
  have hd := hdot.length_le
  obtain ⟨t, hs, ws, hbody⟩ := Reads.exists_expression vs
  exact ⟨_, _, _, .binding hname hdot hbody⟩
termination_by 8 * ts.length + 4

theorem Reads.exists_application (ts : List Token) :
    ∃ t fs us, Reads .application ts t fs us := by
  obtain ⟨f, fs, us, hfunc⟩ := Reads.exists_atom ts
  have hf := hfunc.length_le
  obtain ⟨t, gs, vs, hargs⟩ := Reads.exists_arguments f us
  exact ⟨_, _, _, .application hfunc hargs⟩
termination_by 8 * ts.length + 2

theorem Reads.exists_arguments (f : Term) (ts : List Token) :
    ∃ t fs us, Reads (.arguments f) ts t fs us := by
  by_cases hts : MayFollow ts
  · exact ⟨f, [], ts, .noArgument hts⟩
  · obtain ⟨a, fs, us, harg⟩ := Reads.exists_atom ts
    have ha := harg.length_lt hts
    obtain ⟨t, gs, vs, hargs⟩ := Reads.exists_arguments (.app f a) us
    exact ⟨_, _, _, .argument hts harg hargs⟩
termination_by 8 * ts.length + 1

theorem Reads.exists_atom (ts : List Token) : ∃ t fs us, Reads .atom ts t fs us := by
  match ts with
  | [] => exact ⟨_, _, _, .missing (by simp)⟩
  | x :: rest =>
      cases hx : x.kind with
      | identifier => exact ⟨_, _, _, .name hx⟩
      | opening =>
          obtain ⟨t, fs, us, hinner⟩ := Reads.exists_expression rest
          obtain ⟨y, gs, vs, hclose⟩ := Takes.exists .closing .expectedClosing us
          exact ⟨_, _, _, .group hx hinner hclose⟩
      | lambda =>
          obtain ⟨t, fs, us, hrest⟩ := Reads.exists_binding rest
          exact ⟨_, _, _, .bare hx hrest⟩
      | closing => exact ⟨_, _, _, .missing (by simpa using hx)⟩
      | dot | finish => exact ⟨_, _, _, .skipped (by simp [hx])⟩
termination_by 8 * ts.length

end

/-- What follows a complete expression can be read to the end. -/
theorem Reads.exists_trailing (f : Term) (ts : List Token) (hts : MayFollow ts) :
    ∃ t fs, Reads (.trailing f) ts t fs [] := by
  match ts with
  | [] => exact ⟨_, _, .finished⟩
  | x :: rest =>
      have hx := mayFollow_cons.mp hts
      by_cases hrest : MayFollow rest
      · obtain ⟨t, fs, h⟩ := Reads.exists_trailing f rest hrest
        exact ⟨_, _, .discarded hx hrest h⟩
      · obtain ⟨a, fs, us, harg⟩ := Reads.exists_expression rest
        have ha := harg.length_le
        obtain ⟨t, gs, h⟩ := Reads.exists_trailing (.app f a) us (harg.mayFollow (by simp))
        exact ⟨_, _, .resumed hx hrest harg h⟩
termination_by ts.length

theorem Reads.exists_whole (ts : List Token) : ∃ t fs, Reads .whole ts t fs [] := by
  obtain ⟨f, fs, us, hexpr⟩ := Reads.exists_expression ts
  obtain ⟨t, gs, hrest⟩ := Reads.exists_trailing f us (hexpr.mayFollow (by simp))
  exact ⟨_, _, .whole hexpr hrest⟩

end Tromp
