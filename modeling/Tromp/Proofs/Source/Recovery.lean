import Tromp.Proofs.Source.Recognition
import Tromp.Proofs.Source.Spelling
import Tromp.Proofs.Term.Names

/-!
# What recovery keeps

Recovery skips tokens in three places and puts placeholders in others, but it never loses, repeats
or moves anything that the source names.  Lambda signs and names leave *marks*, in the tokens and
in the term alike, and `Reads.mends` follows the row of all marks through a reading, those of the
term first and those of the tokens that are left behind them: the only change a reading ever makes
to this row is to put a gap into it, and not without a complaint.

The tokens that are skipped leave no marks.  They are dots and closing parentheses, for which the
rules of `Reads` ask wherever they skip one.
-/

namespace Tromp

open Grammar

/-- What a lambda sign or a name leaves in a term. -/
inductive Mark where
  | sign
  | name (text : Option String)
deriving DecidableEq

/-- The mark of a placeholder. -/
def Mark.gap : Mark := .name (some placeholder)

/-- The marks of a term, from left to right. -/
@[simp] def Term.marks : Term → List Mark
  | .var name .. => [.name name]
  | .lam name _ body => .sign :: .name name :: marks body
  | .app f a => marks f ++ marks a

/-- The mark of a token, if it is a lambda sign or a name. -/
def Token.marks (x : Token) : List Mark :=
  match x.kind with
  | .lambda => [.sign]
  | .identifier => [.name (some x.text)]
  | .dot | .opening | .closing | .finish => []

/-- The marks of a row of tokens, from left to right. -/
def marksOf (ts : List Token) : List Mark := ts.flatMap Token.marks

/-- The marks of what has been read before a phrase. -/
@[simp] def Phrase.marks : Phrase → List Mark
  | .binding => [.sign]
  | .arguments f | .trailing f => f.marks
  | .expression | .application | .atom | .whole => []

/-- A row of marks becomes another by putting at most `n` gaps into it. -/
structure Mends (n : Nat) (ls ms : List Mark) : Prop where
  filter_eq : ms.filter (· ≠ .gap) = ls.filter (· ≠ .gap)
  count_le : ms.count .gap ≤ ls.count .gap + n

namespace Mends

variable {m n : Nat} {ls ms ns : List Mark}

theorem refl (n : Nat) (ls : List Mark) : Mends n ls ls := ⟨rfl, Nat.le_add_right _ _⟩

theorem trans (h : Mends m ls ms) (h' : Mends n ms ns) : Mends (m + n) ls ns := by
  refine ⟨h'.filter_eq.trans h.filter_eq, ?_⟩
  have hc := h.count_le
  have hc' := h'.count_le
  omega

theorem mono (h : Mends m ls ms) (hmn : m ≤ n) : Mends n ls ms :=
  ⟨h.filter_eq, Nat.le_trans h.count_le (Nat.add_le_add_left hmn _)⟩

theorem append_left (ns : List Mark) (h : Mends n ls ms) : Mends n (ns ++ ls) (ns ++ ms) := by
  refine ⟨by rw [List.filter_append, List.filter_append, h.filter_eq], ?_⟩
  have hc := h.count_le
  simp only [List.count_append]
  omega

theorem gap_cons (ls : List Mark) : Mends 1 ls (.gap :: ls) := ⟨by simp, by simp⟩

end Mends

@[simp] theorem marksOf_nil : marksOf [] = [] := rfl

@[simp] theorem marksOf_sign {x : Token} (hx : x.kind = .lambda) (ts : List Token) :
    marksOf (x :: ts) = .sign :: marksOf ts := by simp [marksOf, Token.marks, hx]

@[simp] theorem marksOf_name {x : Token} (hx : x.kind = .identifier) (ts : List Token) :
    marksOf (x :: ts) = .name (some x.text) :: marksOf ts := by simp [marksOf, Token.marks, hx]

@[simp] theorem marksOf_opening {x : Token} (hx : x.kind = .opening) (ts : List Token) :
    marksOf (x :: ts) = marksOf ts := by simp [marksOf, Token.marks, hx]

/-- Dots and closing parentheses leave no marks. -/
theorem marksOf_of_not_begins {x : Token} (hx : x.kind.begins = false) (ts : List Token) :
    marksOf (x :: ts) = marksOf ts := by
  cases hk : x.kind <;> simp_all [marksOf, Token.marks, TokenKind.begins]

/-- A binder that is taken or missing leaves its name. -/
theorem Takes.mends_name {c : Complaint} {x : Option Token} {ts us : List Token} {fs : List Snag}
    (h : Takes .identifier c ts x fs us) :
    Mends fs.length (marksOf ts) (.name (some (binderName x)) :: marksOf us) := by
  cases h with
  | present hx => simpa [hx, binderName] using Mends.refl 0 _
  | absent => exact Mends.gap_cons _

/-- A token without mark that is taken or missing leaves the others. -/
theorem Takes.mends {kind : TokenKind} {c : Complaint} {x : Option Token} {ts us : List Token}
    {fs : List Snag} (h : Takes kind c ts x fs us) (hk : kind.begins = false) :
    Mends fs.length (marksOf ts) (marksOf us) := by
  cases h with
  | present hx =>
      rw [marksOf_of_not_begins (hx ▸ hk)]
      exact Mends.refl _ _
  | absent => exact Mends.refl _ _

/-- **Reading keeps all marks**, and puts in no more gaps than it makes complaints. -/
theorem Reads.mends {k : Phrase} {ts us : List Token} {t : Term} {fs : List Snag}
    (h : Reads k ts t fs us) :
    Mends fs.length (k.marks ++ marksOf ts) (t.marks ++ marksOf us) := by
  induction h with
  | abstraction hx _ ih => simpa [hx] using ih
  | expression _ _ ih => exact ih
  | @binding ts us vs ws x y t fs gs hs hname hdot _ ih =>
      have hn := hname.mends_name.append_left [.sign]
      have hd := (hdot.mends rfl).append_left [.sign, .name (some (binderName x))]
      have hb := ih.append_left [.sign, .name (some (binderName x))]
      simpa [Nat.add_assoc] using hn.trans (hd.trans hb)
  | application _ _ ihf iha => simpa using ihf.trans iha
  | noArgument => exact Mends.refl _ _
  | @argument ts us vs f a t fs gs _ _ _ iha ihr =>
      -- The marks of the function stand in front, untouched, while its argument is read.
      have ha := iha.append_left f.marks
      rw [Phrase.marks, Term.marks, List.append_assoc] at ihr
      simpa using ha.trans ihr
  | name hx => simpa [hx] using Mends.refl 0 _
  | @group x ts us vs y t fs gs hx _ hclose ih =>
      have hc := (hclose.mends rfl).append_left t.marks
      simpa [hx] using ih.trans hc
  | bare hx _ ih => simpa [hx] using ih.mono (Nat.le_succ _)
  | skipped hx =>
      rw [marksOf_of_not_begins (by rcases hx with hx | hx <;> simp [hx, TokenKind.begins])]
      exact Mends.gap_cons _
  | missing => exact Mends.gap_cons _
  | finished => exact Mends.refl _ _
  -- What trailing reading throws away bears no mark, so its complaint is not needed for a gap.
  | @resumed x ts us vs f a t fs gs hx _ _ _ iha ihr =>
      have ha := iha.append_left f.marks
      rw [Phrase.marks, Term.marks, List.append_assoc] at ihr
      rw [marksOf_of_not_begins hx]
      simpa using (ha.trans ihr).mono (Nat.le_succ _)
  | discarded hx _ _ ih =>
      rw [marksOf_of_not_begins hx]
      exact ih.mono (Nat.le_succ _)
  | whole _ _ ihe ihr => simpa using ihe.trans ihr

/-- A row of marks is mended with gaps alone. -/
theorem Mends.mem_or_eq_gap {n : Nat} {ls ms : List Mark} (h : Mends n ls ms) {m : Mark}
    (hm : m ∈ ms) : m ∈ ls ∨ m = .gap := by
  by_cases hgap : m = .gap
  · exact Or.inr hgap
  · refine Or.inl ?_
    have hkept : m ∈ ms.filter (· ≠ .gap) := List.mem_filter.mpr ⟨hm, by simpa using hgap⟩
    rw [h.filter_eq] at hkept
    exact List.mem_of_mem_filter hkept

/-! The marks of a term are its names and its abstractions, and those of a source its names and
lambda signs, none of which is a gap. -/

namespace Term

def abstractions : Term → Nat
  | .var .. => 0
  | .lam _ _ body => abstractions body + 1
  | .app f a => abstractions f + abstractions a

end Term

@[simp] def Mark.name? : Mark → Option (Option String)
  | .sign => none
  | .name text => some text

theorem Term.names_eq_filterMap (t : Term) : t.names = t.marks.filterMap Mark.name? := by
  induction t using Term.induction with
  | var name index free => rfl
  | lam name numeral body ih => simp [names, List.filterMap_cons, ih]
  | app f a ihf iha => simp [names, ihf, iha]

theorem Term.abstractions_eq_count (t : Term) : t.abstractions = t.marks.count .sign := by
  induction t using Term.induction with
  | var name index free => rfl
  | lam name numeral body ih => simp [abstractions, ih]
  | app f a ihf iha => simp [abstractions, ihf, iha]

theorem filterMap_marksOf (ts : List Token) :
    (marksOf ts).filterMap Mark.name? =
      (ts.filter (·.kind = .identifier)).map fun x => some x.text := by
  induction ts with
  | nil => rfl
  | cons x ts ih =>
      cases hx : x.kind <;> simp_all [marksOf, Token.marks, List.filterMap_cons]

theorem count_sign_marksOf (ts : List Token) :
    (marksOf ts).count .sign = ts.countP (·.kind = .lambda) := by
  induction ts with
  | nil => rfl
  | cons x ts ih => cases hx : x.kind <;> simp_all [marksOf, Token.marks]

theorem filter_filterMap_name? (ls : List Mark) :
    (ls.filterMap Mark.name?).filter (· ≠ some placeholder) =
      (ls.filter (· ≠ .gap)).filterMap Mark.name? := by
  induction ls with
  | nil => rfl
  | cons l ls ih => cases l <;> grind [Mark.gap, Mark.name?]

theorem count_filterMap_name? (ls : List Mark) :
    (ls.filterMap Mark.name?).count (some placeholder) = ls.count .gap := by
  induction ls with
  | nil => rfl
  | cons l ls ih => cases l <;> simp_all [Mark.gap, List.filterMap_cons, List.count_cons]

/-- No name of a source is a placeholder. -/
theorem gap_not_mem_marksOf_tokens (source : String) : .gap ∉ marksOf (tokens source) := by
  intro hgap
  obtain ⟨x, hx, hmem⟩ := List.mem_flatMap.mp hgap
  have hname : x.kind = .identifier ∧ x.text = placeholder := by
    cases hk : x.kind <;> simp_all [Token.marks, Mark.gap]
  exact (spelled_of_mem_tokens hx).text_ne_placeholder hname.1 hname.2

/-- **Recovery names what the source names.** -/
theorem recover_keeps_names (source : String) :
    ∃ t faults, recover source = (.ok t, faults) ∧
      t.names.filter (· ≠ some placeholder) =
        ((tokenize source).filter (·.kind = .identifier)).map (fun x => some x.text) ∧
      t.abstractions = (tokenize source).countP (·.kind = .lambda) ∧
      t.names.count (some placeholder) ≤ faults.length := by
  obtain ⟨t, fs, h⟩ := Reads.exists_whole (tokens source)
  have hm : Mends fs.length (marksOf (tokens source)) t.marks := by simpa using h.mends
  have hgap := gap_not_mem_marksOf_tokens source
  have hfilter : t.marks.filter (· ≠ .gap) = marksOf (tokens source) := by
    rw [hm.filter_eq, List.filter_eq_self]
    exact fun l hl => by simpa using ne_of_mem_of_not_mem hl hgap
  refine ⟨t, _, h.recover_eq, ?_, ?_, ?_⟩
  · rw [t.names_eq_filterMap, filter_filterMap_name?, hfilter, filterMap_marksOf]
    simp [tokenize, finishToken]
  · have hs : t.marks.count .sign = (t.marks.filter (· ≠ .gap)).count .sign :=
      (List.count_filter (by decide)).symm
    rw [t.abstractions_eq_count, hs, hfilter, count_sign_marksOf]
    simp [tokenize, finishToken]
  · have hc := hm.count_le
    rw [List.count_eq_zero_of_not_mem hgap] at hc
    rw [t.names_eq_filterMap, count_filterMap_name?]
    simpa using hc

end Tromp
