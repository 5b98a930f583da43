import Tromp.Proofs.Term.Names
import Tromp.Proofs.Term.Resolution
import Tromp.Term.Numeral

/-!
# What expansion and resolution keep

Expansion puts numerals in the place of literals, which brings in two names at most, and leaves no
literal.  It fails on literals with too many digits, and on nothing else (`Term.expand?_eq_ok_iff`,
`Term.exists_tooLong`).  Resolution looks at names alone: it does not see tags, finds out anew what
was forgotten of its result, and changes no name.
-/

namespace Tromp.Term

variable {t : Term} {scope : List (Option String)}

/-! ### Names -/

theorem names_resolveIn : (t.resolveIn scope).names = t.names := by
  induction t using Term.induction generalizing scope with
  | var name index free =>
      obtain ⟨i, free', hvar⟩ := exists_resolveIn_var scope name index free
      rw [hvar]
      rfl
  | lam name numeral body ih => rw [resolveIn_lam, names, names, ih]
  | app f a ihf iha => rw [resolveIn_app, names, names, ihf, iha]

/-- Numerals have two names. -/
theorem mem_names_church {n : Nat} {name : Option String} (h : name ∈ (church n).names) :
    name = some "f" ∨ name = some "x" := by
  have hbody : ∀ n, name ∈ (iterate n).names → name = some "f" ∨ name = some "x" := by
    intro n hn
    induction n with
    | zero => exact Or.inr (List.mem_singleton.mp hn)
    | succ n ih =>
        rcases List.mem_cons.mp hn with hf | hrest
        · exact Or.inl hf
        · exact ih hrest
  simp only [church, names, List.mem_cons] at h
  rcases h with hf | hx | hn
  · exact Or.inl hf
  · exact Or.inr hx
  · exact hbody n hn

/-- The names after the expansion are those before it and those of numerals. -/
theorem mem_names_expand {name : Option String} (h : name ∈ t.expand.names) :
    name ∈ t.names ∨ name = some "f" ∨ name = some "x" := by
  induction t using Term.induction with
  | var x index free =>
      cases x with
      | none => exact Or.inl h
      | some s =>
          by_cases hs : isDecimal s = true
          · rw [expand, if_pos hs] at h
            exact Or.inr (mem_names_church h)
          · rw [expand, if_neg hs] at h
            exact Or.inl h
  | lam x numeral body ih =>
      rcases List.mem_cons.mp h with hx | hbody
      · exact Or.inl (List.mem_cons.mpr (Or.inl hx))
      · exact (ih hbody).imp_left (List.mem_cons_of_mem _)
  | app f a ihf iha =>
      rcases List.mem_append.mp h with hf | ha
      · exact (ihf hf).imp_left (List.mem_append_left _)
      · exact (iha ha).imp_left (List.mem_append_right _)

/-! ### Resolution -/

/-- Resolution finds out anew what was forgotten of its result. -/
theorem resolveIn_unresolved : t.unresolved.resolveIn scope = t.resolveIn scope := by
  induction t using Term.induction generalizing scope with
  | var name index free => rw [unresolved, resolveIn_var, resolveIn_var]
  | lam name numeral body ih => rw [unresolved, resolveIn_lam, resolveIn_lam, ih]
  | app f a ihf iha => rw [unresolved, resolveIn_app, resolveIn_app, ihf, iha]

/-- Resolution does not look at tags. -/
theorem resolveIn_untag : t.untag.resolveIn scope = (t.resolveIn scope).untag := by
  induction t using Term.induction generalizing scope with
  | var name index free =>
      obtain ⟨i, free', hvar⟩ := exists_resolveIn_var scope name index free
      rw [untag, hvar]
      rfl
  | lam name numeral body ih => rw [untag, resolveIn_lam, resolveIn_lam, untag, ih]
  | app f a ihf iha => rw [untag, resolveIn_app, resolveIn_app, untag, ihf, iha]

/-! ### Literals -/

/-- Whether no variable of a term is a literal. -/
def HasNoLiterals : Term → Prop
  | .var name .. => ∀ s ∈ name, isDecimal s = false
  | .lam _ _ body => HasNoLiterals body
  | .app f a => HasNoLiterals f ∧ HasNoLiterals a

/-- Whether no literal of a term has too many digits. -/
def HasShortLiterals : Term → Prop
  | .var name .. => ∀ s ∈ name, isDecimal s = true → s.length ≤ digitLimit
  | .lam _ _ body => HasShortLiterals body
  | .app f a => HasShortLiterals f ∧ HasShortLiterals a

/-- Short literals are expanded. -/
theorem expand?_eq_ok {t : Term} (h : t.HasShortLiterals) : t.expand? = .ok t.expand := by
  induction t using Term.induction with
  | var name index free =>
      cases name with
      | none => rfl
      | some s =>
          by_cases hs : isDecimal s = true
          · have hlimit : ¬ digitLimit < s.length := Nat.not_lt.mpr (h s rfl hs)
            simp [Tree.expand?, expand, hs, hlimit]
          · simp [Tree.expand?, expand, hs]
  | lam name numeral body ih =>
      rw [Tree.expand?, ih h]
      rfl
  | app f a ihf iha =>
      rw [Tree.expand?, ihf h.1, iha h.2]
      rfl

/-- A literal with too many digits stops the expansion, and is the only thing that does. -/
theorem exists_tooLong {t : Term} (h : ¬ t.HasShortLiterals) :
    ∃ digits, digitLimit < digits ∧ t.expand? = .error (.tooLong digits) := by
  induction t using Term.induction with
  | var name index free =>
      cases name with
      | none => exact absurd nofun h
      | some s =>
          have hlong : isDecimal s = true ∧ digitLimit < s.length := by
            by_contra hshort
            refine h ?_
            intro name hname hdecimal
            obtain rfl := Option.mem_some.mp hname
            exact Nat.not_lt.mp fun hlimit => hshort ⟨hdecimal, hlimit⟩
          refine ⟨s.length, hlong.2, ?_⟩
          simp [Tree.expand?, hlong]
  | lam name numeral body ih =>
      obtain ⟨digits, hdigits, hbody⟩ := ih h
      refine ⟨digits, hdigits, ?_⟩
      rw [Tree.expand?, hbody]
      rfl
  | app f a ihf iha =>
      by_cases ha : a.HasShortLiterals
      · have hf : ¬ f.HasShortLiterals := fun hf => h ⟨hf, ha⟩
        obtain ⟨digits, hdigits, hfunc⟩ := ihf hf
        refine ⟨digits, hdigits, ?_⟩
        rw [Tree.expand?, expand?_eq_ok ha, hfunc]
        rfl
      · obtain ⟨digits, hdigits, harg⟩ := iha ha
        refine ⟨digits, hdigits, ?_⟩
        rw [Tree.expand?, harg]
        rfl

theorem expand?_eq_ok_iff {t e : Term} :
    t.expand? = .ok e ↔ t.HasShortLiterals ∧ e = t.expand := by
  constructor
  · intro he
    by_cases h : t.HasShortLiterals
    · rw [expand?_eq_ok h] at he
      exact ⟨h, (Except.ok.inj he).symm⟩
    · obtain ⟨digits, -, hfault⟩ := exists_tooLong h
      rw [hfault] at he
      cases he
  · rintro ⟨h, rfl⟩
    exact expand?_eq_ok h

/-- Without literals there is nothing to expand. -/
theorem expand?_of_hasNoLiterals (h : t.HasNoLiterals) : t.expand? = .ok t := by
  induction t using Term.induction with
  | var name index free =>
      cases name with
      | none => rfl
      | some s => simp [Tree.expand?, h s rfl]
  | lam name numeral body ih =>
      rw [Tree.expand?, ih h]
      rfl
  | app f a ihf iha =>
      rw [Tree.expand?, ihf h.1, iha h.2]
      rfl

theorem hasNoLiterals_iterate (n : Nat) : (iterate n).HasNoLiterals := by
  have hname : ∀ x ∈ ["f", "x"], ∀ s ∈ some x, isDecimal s = false := by
    simp only [Option.mem_some_iff, forall_eq']
    decide
  induction n with
  | zero => exact hname "x" (by simp)
  | succ n ih => exact ⟨hname "f" (by simp), ih⟩

/-- **Expansion leaves no literal.**  The binders named by digits do not count, and the variables of
numerals are no literals. -/
theorem hasNoLiterals_expand (t : Term) : t.expand.HasNoLiterals := by
  induction t using Term.induction with
  | var name index free =>
      cases name with
      | none => exact nofun
      | some s =>
          by_cases hs : isDecimal s = true
          · rw [expand, if_pos hs]
            exact hasNoLiterals_iterate _
          · rw [expand, if_neg hs]
            intro r hr
            obtain rfl := Option.some.inj hr
            exact Bool.eq_false_iff.mpr hs
  | lam name numeral body ih => exact ih
  | app f a ihf iha => exact ⟨ihf, iha⟩

theorem HasNoLiterals.resolveIn (h : t.HasNoLiterals) : (t.resolveIn scope).HasNoLiterals := by
  induction t using Term.induction generalizing scope with
  | var name index free =>
      obtain ⟨i, free', hvar⟩ := exists_resolveIn_var scope name index free
      rw [hvar]
      exact h
  | lam name numeral body ih =>
      rw [resolveIn_lam]
      exact ih h
  | app f a ihf iha =>
      rw [resolveIn_app]
      exact ⟨ihf h.1, iha h.2⟩

end Tromp.Term
