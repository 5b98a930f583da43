import Tromp.Proofs.Term.Expansion

/-!
# Literals under binders

Expansion brings binders named `f` and `x` into scopes that may use those names already, and a
binder may be named by digits.  None of this matters, because a numeral is resolved into itself in
every scope (`Term.resolveIn_church`) and resolution keeps the names that expansion goes by.  So the
two steps can be taken in either order, and fail on the same literals (`Term.expand?_resolveIn`).

1.  What is no literal stays at its address (`Term.at?_expand_of_var`), and so it is resolved as if
    nothing were expanded around it.
2.  A tag of the expanded term was there before, or tells the number of the numeral it stands on
    (`Term.tag_of_at?_expand`).
-/

namespace Tromp.Term

variable {t : Term} {scope : List (Option String)} {π : Address} {name : Option String}
  {numeral : Option Int} {body : Term}

/-- Nothing stands in a variable but the variable itself. -/
theorem eq_of_at?_var {x : Option String} {index : Option Nat} {free : Bool} {u : Term}
    (h : at? (.var x index free) π = some u) : u = .var x index free := by
  cases π with
  | nil => exact (Option.some.inj h).symm
  | cons turn π => cases turn <;> cases h

/-! ### Numerals -/

theorem resolveIn_iterate (scope : List (Option String)) (n : Nat) :
    (iterate n).resolveIn (some "x" :: some "f" :: scope) = iterate n := by
  have hx : bindingPlace? (some "x" :: some "f" :: scope) (some "x") = some 0 := by
    rw [bindingPlace?_cons, if_pos rfl]
  have hf : bindingPlace? (some "x" :: some "f" :: scope) (some "f") = some 1 := by
    rw [bindingPlace?_cons, if_neg (by decide), bindingPlace?_cons, if_pos rfl, Option.map_some]
  induction n with
  | zero => rw [iterate, resolveIn_var, hx]
  | succ n ih => rw [iterate, resolveIn_app, resolveIn_var, hf, ih]

/-- **A numeral is resolved into itself**, whatever is bound around it. -/
theorem resolveIn_church (scope : List (Option String)) (n : Nat) :
    (church n).resolveIn scope = church n := by
  rw [church, resolveIn_lam, resolveIn_lam, resolveIn_iterate]

theorem iterations?_iterate (n : Nat) : Tree.iterations? (iterate n) = some n := by
  induction n with
  | zero => rfl
  | succ n ih => rw [iterate, Tree.iterations?, ih, Option.map_some]

/-- Inside a numeral there are no abstractions but the first two. -/
theorem at?_iterate_ne (n : Nat) (π : Address) (name : Option String) (numeral : Option Int)
    (body : Term) : (iterate n).at? π ≠ some (.lam name numeral body) := by
  intro h
  induction n generalizing π with
  | zero => cases eq_of_at?_var h
  | succ n ih =>
      cases π with
      | nil => cases h
      | cons turn π =>
          cases turn with
          | body => cases h
          | func => cases eq_of_at?_var h
          | arg => exact ih π h

/-- The one tag of a numeral tells its number. -/
theorem tag_of_at?_church {k : Nat} {n : Int}
    (h : (church k).at? π = some (.lam name (some n) body)) :
    (Tree.churchValue? (.lam name (some n) body)).map Int.ofNat = some n := by
  cases π with
  | nil =>
      cases h
      exact congrArg (Option.map Int.ofNat) (iterations?_iterate k)
  | cons turn π =>
      cases turn with
      | func | arg => cases h
      | body =>
          cases π with
          | nil => cases h
          | cons turn π =>
              cases turn with
              | func | arg => cases h
              | body => exact absurd h (at?_iterate_ne k π name (some n) body)

/-! ### Expansion and resolution -/

/-- **The order does not matter.**  A term that is resolved before it is expanded becomes what it
becomes the other way round, or fails on the same literal. -/
theorem expand?_resolveIn (scope : List (Option String)) (t : Term) :
    (t.resolveIn scope).expand? = t.expand?.map (resolveIn scope) := by
  induction t using Term.induction generalizing scope with
  | var name index free =>
      obtain ⟨i, free', hvar⟩ := exists_resolveIn_var scope name index free
      rw [hvar]
      cases name with
      | none => exact congrArg Except.ok hvar.symm
      | some s =>
          by_cases hs : isDecimal s = true
          · by_cases hlong : digitLimit < s.length
            · simp [Tree.expand?, hs, hlong, Except.map]
            · simp [Tree.expand?, hs, hlong, Except.map, resolveIn_church]
          · simp [Tree.expand?, hs, Except.map, hvar]
  | lam name numeral body ih =>
      rw [resolveIn_lam, Tree.expand?, Tree.expand?, ih]
      cases body.expand? <;> rfl
  | app f a ihf iha =>
      rw [resolveIn_app, Tree.expand?, Tree.expand?, ihf, iha]
      cases a.expand? with
      | error fault => rfl
      | ok arg => cases f.expand? <;> rfl

/-- Nothing is left to expand after the expansion. -/
theorem expand?_bind_expand? (t : Term) : (t.expand? >>= Tree.expand?) = t.expand? := by
  cases he : t.expand? with
  | error fault => rfl
  | ok e =>
      obtain ⟨-, rfl⟩ := expand?_eq_ok_iff.mp he
      exact expand?_of_hasNoLiterals (hasNoLiterals_expand t)

/-- What is no literal stays where it is. -/
theorem at?_expand_of_var {index : Option Nat} {free : Bool}
    (h : t.at? π = some (.var name index free)) (hname : ∀ s ∈ name, isDecimal s = false) :
    t.expand.at? π = some (.var name index free) := by
  fun_induction at? t π with
  | case1 t =>
      cases h
      cases name with
      | none => rfl
      | some s => simp [expand, at?, hname s rfl]
  | case2 name numeral body π ih => exact ih h
  | case3 f a π ih => exact ih h
  | case4 f a π ih => exact ih h
  | case5 => cases h

/-- **Tags of the expansion.**  They were there before, or they are those of numerals. -/
theorem tag_of_at?_expand {n : Int} (h : t.expand.at? π = some (.lam name (some n) body)) :
    (∃ body', t.at? π = some (.lam name (some n) body')) ∨
      (Tree.churchValue? (.lam name (some n) body)).map Int.ofNat = some n := by
  induction t using Term.induction generalizing π with
  | var x index free =>
      cases x with
      | none => cases eq_of_at?_var h
      | some s =>
          by_cases hs : isDecimal s = true
          · rw [expand, if_pos hs] at h
            exact Or.inr (tag_of_at?_church h)
          · rw [expand, if_neg hs] at h
            cases eq_of_at?_var h
  | lam x numeral inner ih =>
      cases π with
      | nil =>
          cases h
          exact Or.inl ⟨inner, rfl⟩
      | cons turn π =>
          cases turn with
          | func | arg => cases h
          | body => exact ih h
  | app f a ihf iha =>
      cases π with
      | nil => cases h
      | cons turn π =>
          cases turn with
          | body => cases h
          | func => exact ihf h
          | arg => exact iha h

/-- Resolution keeps abstractions and their tags where they are. -/
theorem exists_lam_of_at?_resolveIn (h : (t.resolveIn scope).at? π = some (.lam name numeral body)) :
    ∃ body', t.at? π = some (.lam name numeral body') := by
  rw [at?_resolveIn, Option.map_eq_some_iff] at h
  obtain ⟨u, hu, hlam⟩ := h
  cases u using Term.induction with
  | var x index free =>
      obtain ⟨i, free', hvar⟩ := exists_resolveIn_var (t.binderNames π ++ scope) x index free
      cases hvar.symm.trans hlam
  | lam x numeral' inner =>
      cases hlam
      exact ⟨inner, hu⟩
  | app f a => cases hlam

/-- **Literals and their scopes.**  A term is expanded exactly when none of its literals has too
many digits.  It can be resolved before or after, with the same result, or the same fault; and what
was expanded is not expanded any further.  If the term has no tags, each tag of the expanded term,
and of the resolved one, tells the number whose numeral it stands on.  A variable that is no literal
gets the index and the mark that it gets in the term as it was, whatever the binders around the
literals are called. -/
theorem expansion_keeps_scopes (t : Term) :
    (t.HasShortLiterals → ∃ e, t.expand? = .ok e) ∧
      (¬ t.HasShortLiterals →
        ∃ digits, digitLimit < digits ∧ t.expand? = .error (.tooLong digits)) ∧
      t.resolve.expand? = t.expand?.map resolve ∧
      (t.expand? >>= Tree.expand?) = t.expand? ∧
      ∀ e, t.expand? = .ok e →
        ((∀ π name n body, t.at? π ≠ some (.lam name (some n) body)) →
          ∀ π name n body, e.at? π = some (.lam name (some n) body) ∨
              e.resolve.at? π = some (.lam name (some n) body) →
            (Tree.churchValue? (.lam name (some n) body)).map Int.ofNat = some n) ∧
        ∀ π name index free, t.at? π = some (.var name index free) →
          (∀ s ∈ name, isDecimal s = false) → e.resolve.at? π = t.resolve.at? π := by
  have hcommutes : t.resolve.expand? = t.expand?.map resolve := expand?_resolveIn [] t
  refine ⟨fun hshort => ⟨_, expand?_eq_ok hshort⟩, exists_tooLong, hcommutes,
    expand?_bind_expand? t, ?_⟩
  intro e he
  obtain ⟨-, rfl⟩ := expand?_eq_ok_iff.mp he
  have hresolved : t.expand.resolve = t.resolve.expand := by
    rw [he] at hcommutes
    exact (expand?_eq_ok_iff.mp hcommutes).2
  constructor
  · rintro huntagged π name n body (htag | htag)
    · refine (tag_of_at?_expand htag).resolve_left ?_
      rintro ⟨inner, hinner⟩
      exact huntagged π name n inner hinner
    · rw [hresolved] at htag
      refine (tag_of_at?_expand htag).resolve_left ?_
      rintro ⟨inner, hinner⟩
      rw [resolve_eq_resolveIn] at hinner
      obtain ⟨inner', hinner'⟩ := exists_lam_of_at?_resolveIn hinner
      exact huntagged π name n inner' hinner'
  · intro π name index free hvar hname
    have hat : t.resolve.at? π =
        some (resolveIn (t.binderNames π ++ []) (.var name index free)) := by
      rw [resolve_eq_resolveIn, at?_resolveIn, hvar, Option.map_some]
    obtain ⟨i, free', hplace⟩ := exists_resolveIn_var (t.binderNames π ++ []) name index free
    rw [hplace] at hat
    rw [hresolved, at?_expand_of_var hat hname, hat]

end Tromp.Term
