import Tromp.Proofs.Source.RoundTrip
import Tromp.Proofs.Term.Address
import Tromp.Proofs.Term.Annotations

/-!
# What is left of a mended term when it is printed

Recovery puts the placeholder where a name or an atom is missing, and the placeholder is printed
like any other name.  But it is made of a character that stands in no token, so it is not read back:
the text of a mended term has gaps where the term has placeholders.

1.  A gap where a whole expression should stand, and one after a lambda sign, are mended as before.
    A gap among the atoms of an application goes unnoticed, because a shorter row of atoms is an
    application too.  What is left is the *residue* of the term (`Term.residue`).
2.  The residue is what a printed term is read as (`recover_pretty_eq`).
3.  It has as many variables as the term exactly if no operand is a placeholder, and is the term in
    that case (`Term.residue_eq_plain`, `Term.width_residue_lt`).
-/

namespace Tromp

open Grammar

namespace Term

/-- Whether a term is a placeholder. -/
def isPlaceholder : Term → Bool
  | .var name _ _ => name == some placeholder
  | _ => false

/-- Whether an application of a term has a placeholder for its function or for its argument. -/
def hasMissingOperand : Term → Bool
  | .var .. => false
  | .lam _ _ body => hasMissingOperand body
  | .app f a => isPlaceholder f || isPlaceholder a || hasMissingOperand f || hasMissingOperand a

/-- What the text of a term is read as, if there are any tokens in it.  An application that is an
argument has at least its parentheses. -/
def residue? : Term → Option Term
  | .var name _ _ =>
    if name = some placeholder then none else some (.var (some (nameText name)) none false)
  | .lam name _ body => some (.lam (some (nameText name)) none ((residue? body).getD hole))
  | .app f a =>
    (residue? f).merge .app (if a.isApp then some ((residue? a).getD hole) else residue? a)

/-- What is left of a term when its text is read. -/
def residue (t : Term) : Term := t.residue?.getD hole

/-- What is left of a term that is an argument, if there are any tokens in its text. -/
def argumentResidue? (t : Term) : Option Term := if t.isApp then some t.residue else t.residue?

/-- Whether every name of a term is absent, can be spelled, or is the placeholder. -/
def HasMendedNames (t : Term) : Prop :=
  ∀ name ∈ t.names, ∀ s ∈ name, IsSourceName s ∨ s = placeholder

variable {name : Option String} {index : Option Nat} {free : Bool} {numeral : Option Int}
  {body f a t : Term}

theorem hasMendedNames_var :
    HasMendedNames (.var name index free) ↔ ∀ s ∈ name, IsSourceName s ∨ s = placeholder := by
  simp [HasMendedNames, names]

theorem hasMendedNames_lam :
    HasMendedNames (.lam name numeral body) ↔
      (∀ s ∈ name, IsSourceName s ∨ s = placeholder) ∧ body.HasMendedNames := by
  simp [HasMendedNames, names]

theorem hasMendedNames_app :
    HasMendedNames (.app f a) ↔ f.HasMendedNames ∧ a.HasMendedNames := by
  simp [HasMendedNames, names, or_imp, forall_and]

/-- A name that may be mended is printed as a word or as the placeholder. -/
theorem nameText_cases (h : ∀ s ∈ name, IsSourceName s ∨ s = placeholder) :
    (name ≠ some placeholder ∧ IsSourceName (nameText name)) ∨ name = some placeholder := by
  cases name with
  | none => exact Or.inl ⟨nofun, by decide⟩
  | some s =>
      by_cases hs : s = placeholder
      · exact Or.inr (congrArg some hs)
      · exact Or.inl ⟨by simpa using hs, (h s rfl).resolve_right hs⟩

/-! ### How much is left -/

theorem plain_of_isPlaceholder (h : t.isPlaceholder = true) : t.plain = hole := by
  cases t with
  | foreign value => exact value.elim
  | var name index free =>
      have hname : name = some placeholder := by simpa [isPlaceholder] using h
      rw [plain, hname]
      rfl
  | lam name numeral body => cases h
  | app f a => cases h

/-- What is left of a term whose text is read as it is printed, or is empty. -/
theorem residue_of_residue?_eq (h : t.residue? = if t.isPlaceholder then none else some t.plain) :
    t.residue = t.plain := by
  rw [residue, h]
  by_cases ht : t.isPlaceholder
  · simp [ht, plain_of_isPlaceholder ht]
  · simp [ht]

theorem residue?_eq (h : t.hasMissingOperand = false) :
    t.residue? = if t.isPlaceholder then none else some t.plain := by
  induction t using Term.induction with
  | var name index free =>
      by_cases hname : name = some placeholder
      · simp [residue?, isPlaceholder, hname]
      · simp [residue?, isPlaceholder, hname, plain]
  | lam name numeral body ih =>
      have hbody := residue_of_residue?_eq (ih h)
      rw [residue] at hbody
      simp [residue?, isPlaceholder, plain, hbody]
  | app f a ihf iha =>
      simp only [hasMissingOperand, Bool.or_eq_false_iff] at h
      obtain ⟨⟨⟨hplacef, hplacea⟩, hf⟩, ha⟩ := h
      have hfunction := ihf hf
      have hargument := iha ha
      have hresidue := residue_of_residue?_eq hargument
      rw [residue] at hresidue
      rw [hplacef] at hfunction
      rw [hplacea] at hargument
      simp [residue?, isPlaceholder, plain, hfunction, hargument]

/-- **A term without missing operands is left as it is.** -/
theorem residue_eq_plain (h : t.hasMissingOperand = false) : t.residue = t.plain :=
  residue_of_residue?_eq (residue?_eq h)

theorem residue?_of_isPlaceholder (h : t.isPlaceholder = true) :
    t.residue? = none ∧ t.argumentResidue? = none := by
  cases t with
  | foreign value => exact value.elim
  | var name index free =>
      have hname : name = some placeholder := by simpa [isPlaceholder] using h
      have hnone : residue? (.var name index free) = none := if_pos hname
      exact ⟨hnone, hnone⟩
  | lam name numeral body => cases h
  | app f a => cases h

theorem getD_argumentResidue? (t : Term) : t.argumentResidue?.getD hole = t.residue := by
  rw [argumentResidue?]
  split <;> rfl

/-- An application leaves an application, or one of its operands is lost. -/
theorem residue_app_cases (f a : Term) :
    (residue (.app f a) = .app f.residue a.residue ∧ f.isPlaceholder = false ∧
      a.isPlaceholder = false) ∨
    residue (.app f a) = f.residue ∨ residue (.app f a) = a.residue := by
  have hleft : residue (.app f a) = (f.residue?.merge .app a.argumentResidue?).getD hole := rfl
  rw [hleft, ← getD_argumentResidue? a, residue]
  cases hf : f.residue? with
  | none =>
      cases a.argumentResidue? with
      | none => exact Or.inr (Or.inl rfl)
      | some u => exact Or.inr (Or.inr rfl)
  | some v =>
      cases ha : a.argumentResidue? with
      | none => exact Or.inr (Or.inl rfl)
      | some u =>
          refine Or.inl ⟨rfl, ?_, ?_⟩
          · by_contra hplace
            have hnone := (residue?_of_isPlaceholder (by simpa using hplace)).1
            rw [hnone] at hf
            cases hf
          · by_contra hplace
            have hnone := (residue?_of_isPlaceholder (by simpa using hplace)).2
            rw [hnone] at ha
            cases ha

/-- No variables are added. -/
theorem width_residue_le (t : Term) : t.residue.width ≤ t.width := by
  induction t using Term.induction with
  | var name index free =>
      rw [residue, residue?]
      split <;> exact Nat.le_refl 1
  | lam name numeral body ih => exact ih
  | app f a ihf iha =>
      have hf := f.width_pos
      have ha := a.width_pos
      rw [width]
      rcases residue_app_cases f a with ⟨happ, -⟩ | hlost | hlost
      · rw [happ, width]
        omega
      · rw [hlost]
        omega
      · rw [hlost]
        omega

/-- **A missing operand is lost**, and a variable with it. -/
theorem width_residue_lt (h : t.hasMissingOperand = true) : t.residue.width < t.width := by
  induction t using Term.induction with
  | var name index free => cases h
  | lam name numeral body ih => exact ih h
  | app f a ihf iha =>
      have hf := f.width_pos
      have ha := a.width_pos
      have hlef := f.width_residue_le
      have hlea := a.width_residue_le
      rw [width]
      rcases residue_app_cases f a with ⟨happ, hplacef, hplacea⟩ | hlost | hlost
      · rw [happ, width]
        simp only [hasMissingOperand, hplacef, hplacea, Bool.or_eq_true, Bool.false_eq_true,
          false_or] at h
        rcases h with hmissing | hmissing
        · have hlt := ihf hmissing
          omega
        · have hlt := iha hmissing
          omega
      · rw [hlost]
        omega
      · rw [hlost]
        omega

/-- The shape of a term is left exactly if it has no missing operands. -/
theorem nameless_residue_eq_iff (h : t.plain = t) :
    t.residue.nameless = t.nameless ↔ t.hasMissingOperand = false := by
  constructor
  · intro hshape
    by_contra hmissing
    have hlt := width_residue_lt (by simpa using hmissing)
    have hwidth := congrArg width hshape
    rw [nameless_eq_relabel, nameless_eq_relabel, width_relabel, width_relabel] at hwidth
    exact absurd hwidth (Nat.ne_of_lt hlt)
  · intro hwhole
    rw [residue_eq_plain hwhole, h]

end Term

/-! ### Tokens with gaps -/

variable {v w : List Token} {f a u : Term} {x y : Token}

/-- A row of tokens is read as an atom with a term, whatever follows it. -/
def IsAtom (w : List Token) (u : Term) : Prop :=
  (∃ x ts, w = x :: ts ∧ (x.kind = .identifier ∨ x.kind = .opening)) ∧
    ∀ us, ∃ fs, Reads .atom (w ++ us) u fs us

/-- A row of tokens is read as atoms, the first of which is applied to the others and to what
follows them. -/
def IsRow (w : List Token) (u : Term) : Prop :=
  (∃ x ts, w = x :: ts ∧ (x.kind = .identifier ∨ x.kind = .opening)) ∧
    ∀ us t gs vs, Reads (.arguments u) us t gs vs → ∃ fs, Reads .application (w ++ us) t fs vs

/-- A row of tokens is read as an expression where a closing parenthesis follows, or nothing. -/
def IsExpression (w : List Token) (u : Term) : Prop :=
  ∀ us, (∀ y ∈ us.head?, y.kind = .closing) → ∃ fs, Reads .expression (w ++ us) u fs us

/-- A row of tokens is read as a term, or is empty if there is none. -/
def OrNothing (P : List Token → Term → Prop) (w : List Token) : Option Term → Prop
  | none => w = []
  | some u => P w u

theorem isAtom_name (hx : x.kind = .identifier) : IsAtom [x] (.var (some x.text) none false) :=
  ⟨⟨x, [], rfl, Or.inl hx⟩, fun _ => ⟨[], .name hx⟩⟩

theorem IsAtom.isRow (h : IsAtom w u) : IsRow w u := by
  refine ⟨h.1, fun us t gs vs hargs => ?_⟩
  obtain ⟨fs, hatom⟩ := h.2 us
  exact ⟨fs ++ gs, .application hatom hargs⟩

/-- No row of tokens ends before an atom. -/
theorem IsAtom.not_mayFollow (h : IsAtom w u) (us : List Token) : ¬MayFollow (w ++ us) := by
  obtain ⟨⟨x, ts, rfl, hx⟩, -⟩ := h
  intro hfollow
  have hbegins := mayFollow_cons.mp hfollow
  rcases hx with hx | hx
  · simp [hx, TokenKind.begins] at hbegins
  · simp [hx, TokenKind.begins] at hbegins

theorem IsRow.apply (hf : IsRow v f) (ha : IsAtom w a) : IsRow (v ++ w) (.app f a) := by
  obtain ⟨⟨x, ts, rfl, hx⟩, hrow⟩ := hf
  refine ⟨⟨x, ts ++ w, rfl, hx⟩, fun us t gs vs hargs => ?_⟩
  obtain ⟨fs, hatom⟩ := ha.2 us
  rw [List.append_assoc]
  exact hrow _ _ _ _ (.argument (ha.not_mayFollow us) hatom hargs)

/-- **A gap among atoms goes unnoticed.** -/
theorem OrNothing.apply {f a : Option Term} (hf : OrNothing IsRow v f) (ha : OrNothing IsAtom w a) :
    OrNothing IsRow (v ++ w) (f.merge .app a) := by
  cases f with
  | none =>
      obtain rfl : v = [] := hf
      cases a with
      | none => exact ha
      | some a => exact ha.isRow
  | some f =>
      cases a with
      | none =>
          obtain rfl : w = [] := ha
          rw [List.append_nil]
          exact hf
      | some a => exact IsRow.apply hf ha

theorem mayFollow_of_closing {us : List Token} (hus : ∀ y ∈ us.head?, y.kind = .closing) :
    MayFollow us := by
  intro y hy
  rw [hus y hy]
  rfl

theorem IsRow.isExpression (h : IsRow w u) : IsExpression w u := by
  obtain ⟨⟨x, ts, rfl, hx⟩, hrow⟩ := h
  intro us hus
  obtain ⟨fs, happlication⟩ := hrow us u [] us (.noArgument (mayFollow_of_closing hus))
  refine ⟨fs, .expression ?_ happlication⟩
  rcases hx with hx | hx <;> simp [hx]

/-- **A gap where an expression should stand is noticed**, and mended by a placeholder. -/
theorem isExpression_nil : IsExpression [] hole := by
  intro us hus
  have hargs : Reads (.arguments hole) us hole [] us := .noArgument (mayFollow_of_closing hus)
  refine ⟨_, .expression ?_ (.application (.missing hus) hargs)⟩
  intro y hy
  rw [hus y hy]
  decide

theorem OrNothing.isExpression {u : Option Term} (h : OrNothing IsRow w u) :
    IsExpression w (u.getD hole) := by
  cases u with
  | none =>
      obtain rfl : w = [] := h
      exact isExpression_nil
  | some u => exact IsRow.isExpression h

theorem OrNothing.isRow {u : Option Term} (h : OrNothing IsAtom w u) : OrNothing IsRow w u := by
  cases u with
  | none => exact h
  | some u => exact IsAtom.isRow h

theorem IsExpression.group (h : IsExpression w u) (hx : x.kind = .opening)
    (hy : y.kind = .closing) : IsAtom (x :: (w ++ [y])) u := by
  refine ⟨⟨x, _, rfl, Or.inr hx⟩, fun us => ?_⟩
  obtain ⟨fs, hinner⟩ := h (y :: us) (by simpa using hy)
  refine ⟨fs ++ [], ?_⟩
  rw [List.cons_append, List.append_assoc]
  exact .group hx hinner (.present hy)

/-- A row of tokens before a dot is read as the name of a binder. -/
def IsBinder (v : List Token) (s : String) : Prop :=
  ∀ y ts, y.kind = .dot → ∃ x fs, Takes .identifier .expectedName (v ++ y :: ts) x fs (y :: ts) ∧
    binderName x = s

theorem isBinder_name (hx : x.kind = .identifier) : IsBinder [x] x.text :=
  fun _ _ _ => ⟨some x, [], .present hx, rfl⟩

theorem isBinder_nil : IsBinder [] placeholder := by
  intro y ts hy
  refine ⟨none, _, .absent ?_, rfl⟩
  simp [hy]

theorem IsExpression.abstraction {s : String} (hv : IsBinder v s) (h : IsExpression w u)
    (hx : x.kind = .lambda) (hy : y.kind = .dot) :
    IsExpression (x :: (v ++ y :: w)) (.lam (some s) none u) := by
  intro us hus
  obtain ⟨z, fs, hname, rfl⟩ := hv y (w ++ us) hy
  obtain ⟨gs, hbody⟩ := h us hus
  refine ⟨fs ++ [] ++ gs, ?_⟩
  rw [List.cons_append, List.append_assoc, List.cons_append]
  exact .abstraction hx (.binding hname (.present hy) hbody)

/-! ### Texts with placeholders -/

/-- The placeholder is no token. -/
theorem cuts_placeholder {P : List Token → Prop} (h : P []) : Cuts placeholder.toList P := by
  intro n rest _
  refine ⟨[], n + 1, ?_, h⟩
  have hskip : tokensFrom n ('?' :: rest) = tokensFrom (n + 1) rest := by
    rw [tokensFrom] <;> simp [isLambdaSign, isNameChar]
  exact hskip

namespace Term

/-- What the tokens of a printed term are read as, which depends on where the term stands. -/
def Place.Leaves (place : Place) (t : Term) (w : List Token) : Prop :=
  match place with
  | .top => IsExpression w t.residue
  | .function => OrNothing IsRow w t.residue?
  | .argument => OrNothing IsAtom w t.argumentResidue?

/-- The text of a variable is an atom or a gap. -/
theorem cuts_nameText_atom (h : ∀ s ∈ name, IsSourceName s ∨ s = placeholder) :
    Cuts (nameText name).toList fun w => OrNothing IsAtom w (residue? (.var name index free)) := by
  rcases nameText_cases h with ⟨hne, hname⟩ | rfl
  · refine Cuts.name hname fun x hx htext => ?_
    rw [residue?, if_neg hne, ← htext]
    exact isAtom_name hx
  · exact cuts_placeholder rfl

/-- And that of a binder is a name or a gap. -/
theorem cuts_nameText_binder (h : ∀ s ∈ name, IsSourceName s ∨ s = placeholder) :
    Cuts (nameText name).toList fun v => IsBinder v (nameText name) := by
  rcases nameText_cases h with ⟨-, hname⟩ | rfl
  · refine Cuts.name hname fun x hx htext => ?_
    rw [← htext]
    exact isBinder_name hx
  · exact cuts_placeholder isBinder_nil

/-- **What a printed term is read as.** -/
theorem cuts_prettyAt {t : Term} (h : t.HasMendedNames) (place : Place) :
    Cuts (t.prettyAt place).toList (place.Leaves t) := by
  induction t using Term.induction generalizing place with
  | var name index free =>
      have hatom : Cuts (nameText name).toList
          fun w => OrNothing IsAtom w (residue? (.var name index free)) :=
        cuts_nameText_atom (hasMendedNames_var.mp h)
      cases place with
      | top => exact hatom.mono fun w hw => hw.isRow.isExpression
      | function => exact hatom.mono fun w hw => hw.isRow
      | argument => exact hatom
  | lam name numeral body ih =>
      obtain ⟨hname, hbody⟩ := hasMendedNames_lam.mp h
      have hbare : Cuts ('λ' :: ((nameText name).toList ++ '.' :: (body.prettyAt .top).toList))
          (Place.top.Leaves (.lam name numeral body)) :=
        Cuts.abstraction (cuts_nameText_binder hname) (ih hbody .top)
          fun x v y w hx hv hy hw => hw.abstraction hv hx hy
      have hgroup := hbare.parenthesized (Q := Place.argument.Leaves (.lam name numeral body))
        fun x w y hx hw hy => IsExpression.group hw hx hy
      cases place with
      | top => simpa [prettyAt, parenthesize] using hbare
      | function =>
          have hrow := hgroup.mono (Q := Place.function.Leaves (.lam name numeral body))
            fun w hw => IsAtom.isRow hw
          simpa [prettyAt, parenthesize] using hrow
      | argument => simpa [prettyAt, parenthesize] using hgroup
  | app f a ihf iha =>
      obtain ⟨hf, ha⟩ := hasMendedNames_app.mp h
      have hrow : Cuts ((f.prettyAt .function).toList ++ ' ' :: (a.prettyAt .argument).toList)
          (Place.function.Leaves (.app f a)) :=
        Cuts.spaced (ihf hf .function) (iha ha .argument) fun v w hv hw => OrNothing.apply hv hw
      have hbare := hrow.mono (Q := Place.top.Leaves (.app f a))
        fun w hw => OrNothing.isExpression hw
      have hgroup := hbare.parenthesized (Q := Place.argument.Leaves (.app f a))
        fun x w y hx hw hy => IsExpression.group hw hx hy
      cases place with
      | top => simpa [prettyAt, parenthesize] using hbare
      | function => simpa [prettyAt, parenthesize] using hrow
      | argument => simpa [prettyAt, parenthesize] using hgroup

end Term

/-! ### Mended terms -/

/-- A text that is cut into the tokens of an expression is read as that. -/
theorem recover_eq_ok {source : String} (h : Cuts source.toList fun w => IsExpression w u) :
    (recover source).1 = .ok u := by
  obtain ⟨w, m, hw, hexpression⟩ := h 0 [] EndsName.nil
  have htokens : tokens source = w := by simpa [tokens, tokensFrom] using hw
  obtain ⟨fs, hreads⟩ := hexpression [] (by simp)
  rw [List.append_nil, ← htokens] at hreads
  exact congrArg Prod.fst (hreads.whole .finished).recover_eq

/-- **The text of a term is read as its residue.** -/
theorem recover_pretty_eq {t : Term} (h : t.HasMendedNames) :
    (recover t.pretty).1 = .ok t.residue := recover_eq_ok (Term.cuts_prettyAt h .top)

/-- **What becomes of a mended term that is printed and read again.**  Every source has a term, and
the text of that is read as its residue.  The residue has the shape of the term, and then is the
term, exactly if the term has no application with a placeholder for an operand. -/
theorem recover_pretty (source : String) :
    ∃ t, (recover source).1 = .ok t ∧ (recover t.pretty).1 = .ok t.residue ∧
      (t.residue.nameless = t.nameless ↔ t.hasMissingOperand = false) ∧
      (t.residue = t ↔ t.hasMissingOperand = false) := by
  obtain ⟨t, fs, hreads⟩ := Reads.exists_whole (tokens source)
  have hparse : (parseWith .lenient source).result = .ok t := congrArg Prod.fst hreads.recover_eq
  have hplain : t.plain = t := hreads.plain_eq trivial
  have hnames : t.HasMendedNames := by
    rintro name hname s rfl
    exact isSourceName_or_eq_placeholder hparse hname
  refine ⟨t, hparse, recover_pretty_eq hnames, Term.nameless_residue_eq_iff hplain, ?_, ?_⟩
  · intro heq
    exact (Term.nameless_residue_eq_iff hplain).mp (congrArg Term.nameless heq)
  · intro hwhole
    rw [Term.residue_eq_plain hwhole, hplain]

/-- The argument that is missing in `x ()` is put in, printed, and lost. -/
theorem recover_pretty_missing_argument :
    let t : Term := .app (.var (some "x") none false) (.var (some "?") none false)
    (recover "x ()").1 = .ok t ∧ t.pretty = "x ?" ∧
      (recover t.pretty).1 = .ok (.var (some "x") none false) ∧
      t.residue.nameless ≠ t.nameless := by
  intro t
  obtain ⟨u, hu, hback, hshape, -⟩ := recover_pretty "x ()"
  have hparse : (recover "x ()").1 = .ok t := by decide +kernel
  obtain rfl : t = u := Except.ok.inj (hparse.symm.trans hu)
  have hresidue : t.residue = .var (some "x") none false := by decide +kernel
  have hmissing : t.hasMissingOperand = true := by decide +kernel
  refine ⟨hparse, by decide +kernel, ?_, ?_⟩
  · rw [hback, hresidue]
  · intro heq
    rw [hshape.mp heq] at hmissing
    cases hmissing

end Tromp
