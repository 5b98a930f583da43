import Tromp.Proofs.Term.Occurrence
import Tromp.Term.Binding

/-!
# Resolution is exact

The environment of resolution holds absolute depths, and an index is got back by subtraction.
`Term.binderNames` is the plain view of the same scope: the names of the abstractions around an
address, innermost first, one for each abstraction, so that an index is a place in that list.

1.  `Environment.depth?_below`: the environment below some abstractions finds a name at the place of
    the innermost abstraction of that name.  One without a name takes up a place and is never found.
2.  `Term.at?_resolveIn`: what stands at an address is resolved in the scope of that address.
3.  `Term.resolve_binds_innermost`: every variable gets the place of the innermost abstraction of
    its name, or is marked free.
-/

namespace Tromp

/-- The environment below abstractions with these names, innermost first. -/
def Environment.below : List (Option String) → Environment
  | [] => []
  | name :: outer => (below outer).bind name outer.length

/-- The place of the innermost abstraction of a name. -/
def bindingPlace? (scope : List (Option String)) (name : Option String) : Option Nat :=
  name.bind fun x => scope.idxOf? (some x)

theorem bindingPlace?_eq_none_iff {scope : List (Option String)} {name : Option String} :
    bindingPlace? scope name = none ↔ name = none ∨ name ∉ scope := by
  cases name with
  | none => simp [bindingPlace?]
  | some x => simp [bindingPlace?]

theorem bindingPlace?_eq_some_iff {scope : List (Option String)} {name : Option String} {i : Nat} :
    bindingPlace? scope name = some i ↔
      name ≠ none ∧ scope[i]? = some name ∧ ∀ j < i, scope[j]? ≠ some name := by
  cases name with
  | none => simp [bindingPlace?]
  | some x =>
      simp only [bindingPlace?, Option.bind_some, List.idxOf?_eq_some_iff, ne_eq, reduceCtorEq,
        not_false_eq_true, true_and]
      constructor
      · rintro ⟨hi, heq, hne⟩
        refine ⟨List.getElem?_eq_some_iff.mpr ⟨hi, heq⟩, fun j hj hget => ?_⟩
        obtain ⟨hj', heq'⟩ := List.getElem?_eq_some_iff.mp hget
        exact hne j hj heq'
      · rintro ⟨hget, hne⟩
        obtain ⟨hi, heq⟩ := List.getElem?_eq_some_iff.mp hget
        refine ⟨hi, heq, fun j hj heq' => hne j hj ?_⟩
        exact List.getElem?_eq_some_iff.mpr ⟨Nat.lt_trans hj hi, heq'⟩

theorem lt_length_of_bindingPlace? {scope : List (Option String)} {name : Option String} {i : Nat}
    (h : bindingPlace? scope name = some i) : i < scope.length := by
  obtain ⟨-, hget, -⟩ := bindingPlace?_eq_some_iff.mp h
  exact (List.getElem?_eq_some_iff.mp hget).1

/-- Under one abstraction more, places are counted from there. -/
theorem bindingPlace?_cons (binder : Option String) (scope : List (Option String)) (x : String) :
    bindingPlace? (binder :: scope) (some x) =
      if binder = some x then some 0 else (bindingPlace? scope (some x)).map (· + 1) := by
  simp [bindingPlace?, List.idxOf?_cons]

/-- Places count from the inside, depths from the outside. -/
theorem Environment.depth?_below (scope : List (Option String)) (name : Option String) :
    (below scope).depth? name =
      (bindingPlace? scope name).map fun i => scope.length - i - 1 := by
  cases name with
  | none => rfl
  | some x =>
      induction scope with
      | nil => rfl
      | cons binder outer ih =>
          have hshift : (bindingPlace? outer (some x)).map (fun i => outer.length - i - 1) =
              ((bindingPlace? outer (some x)).map (· + 1)).map
                fun i => (binder :: outer).length - i - 1 := by
            simp [Function.comp_def]
          rw [below, bindingPlace?_cons]
          cases binder with
          | none => exact ih.trans hshift
          | some y =>
              by_cases hxy : y = x
              · subst hxy
                simp [bind, depth?]
              · have hlookup : (bind (below outer) (some y) outer.length).depth? (some x) =
                    (below outer).depth? (some x) := by
                  have hne : (x == y) = false := beq_eq_false_iff_ne.mpr (Ne.symm hxy)
                  simp [bind, depth?, List.lookup_cons, hne]
                rw [hlookup, if_neg (by simpa using hxy)]
                exact ih.trans hshift

namespace Term

/-- The names of the abstractions on the way to an address, innermost first. -/
def binderNames : Term → Address → List (Option String)
  | .lam name _ body, .body :: π => binderNames body π ++ [name]
  | .app f _, .func :: π => binderNames f π
  | .app _ a, .arg :: π => binderNames a π
  | _, _ => []

/-- The name of a variable. -/
def variableName? : Term → Option String
  | .var name _ _ => name
  | _ => none

/-- The term less what resolution finds out: variables have no index and no mark. -/
def unresolved : Term → Term
  | .var name _ _ => .var name none false
  | .lam name numeral body => .lam name numeral (unresolved body)
  | .app f a => .app (unresolved f) (unresolved a)

/-- Resolution of a term that stands in a scope: below abstractions of these names, innermost
first. -/
def resolveIn (scope : List (Option String)) (t : Term) : Term :=
  resolveAt scope.length (.below scope) t

theorem resolve_eq_resolveIn (t : Term) : t.resolve = t.resolveIn [] := rfl

/-- **Variables.**  The index of a bound variable is the place of its abstraction in the scope. -/
theorem resolveIn_var (scope : List (Option String)) (name : Option String) (index : Option Nat)
    (free : Bool) :
    resolveIn scope (.var name index free) =
      match bindingPlace? scope name with
      | some i => .var name (some i) false
      | none => .var name (some 0) true := by
  rw [resolveIn, resolveAt, Environment.depth?_below]
  cases hplace : bindingPlace? scope name with
  | none => rfl
  | some i =>
      have hi := lt_length_of_bindingPlace? hplace
      have hback : scope.length - (scope.length - i - 1) - 1 = i := by omega
      simp [hback]

theorem resolveIn_lam (scope : List (Option String)) (name : Option String) (numeral : Option Int)
    (body : Term) :
    resolveIn scope (.lam name numeral body) = .lam name numeral (resolveIn (name :: scope) body) :=
  rfl

theorem resolveIn_app (scope : List (Option String)) (f a : Term) :
    resolveIn scope (.app f a) = .app (resolveIn scope f) (resolveIn scope a) :=
  rfl

/-- What is resolved in place of a variable is a variable of its name. -/
theorem exists_resolveIn_var (scope : List (Option String)) (name : Option String)
    (index : Option Nat) (free : Bool) :
    ∃ i free', resolveIn scope (.var name index free) = .var name (some i) free' := by
  rw [resolveIn_var]
  split
  next i _ => exact ⟨i, false, rfl⟩
  next => exact ⟨0, true, rfl⟩

/-- **Addresses keep their scope.**  What stands at an address is resolved below the abstractions
on the way to it. -/
theorem at?_resolveIn (scope : List (Option String)) (t : Term) (π : Address) :
    (t.resolveIn scope).at? π = (t.at? π).map (resolveIn (t.binderNames π ++ scope)) := by
  induction t using Term.induction generalizing scope π with
  | var name index free =>
      cases π with
      | nil => simp [at?, binderNames]
      | cons turn π =>
          obtain ⟨i, free', hvar⟩ := exists_resolveIn_var scope name index free
          cases turn <;> simp [hvar, at?]
  | lam name numeral body ih =>
      rw [resolveIn_lam]
      cases π with
      | nil => simp [at?, binderNames, resolveIn_lam]
      | cons turn π =>
          cases turn with
          | body => simp [at?, binderNames, ih]
          | func | arg => simp [at?]
  | app f a ihf iha =>
      rw [resolveIn_app]
      cases π with
      | nil => simp [at?, binderNames, resolveIn_app]
      | cons turn π =>
          cases turn with
          | body => simp [at?]
          | func => simp [at?, binderNames, ihf]
          | arg => simp [at?, binderNames, iha]

theorem unresolved_resolveIn (scope : List (Option String)) (t : Term) :
    (t.resolveIn scope).unresolved = t.unresolved := by
  induction t using Term.induction generalizing scope with
  | var name index free =>
      obtain ⟨i, free', hvar⟩ := exists_resolveIn_var scope name index free
      rw [hvar]
      rfl
  | lam name numeral body ih => rw [resolveIn_lam, unresolved, unresolved, ih]
  | app f a ihf iha => rw [resolveIn_app, unresolved, unresolved, ihf, iha]

/-- Resolution looks at names alone. -/
theorem resolveIn_resolveIn (scope scope' : List (Option String)) (t : Term) :
    (t.resolveIn scope').resolveIn scope = t.resolveIn scope := by
  induction t using Term.induction generalizing scope scope' with
  | var name index free =>
      obtain ⟨i, free', hvar⟩ := exists_resolveIn_var scope' name index free
      rw [hvar, resolveIn_var, resolveIn_var]
  | lam name numeral body ih => rw [resolveIn_lam, resolveIn_lam, resolveIn_lam, ih]
  | app f a ihf iha => rw [resolveIn_app, resolveIn_app, resolveIn_app, ihf, iha]

theorem isValid_resolveIn (scope : List (Option String)) (t : Term) :
    (t.resolveIn scope).isValid scope.length = true := by
  induction t using Term.induction generalizing scope with
  | var name index free =>
      rw [resolveIn_var]
      cases hplace : bindingPlace? scope name with
      | none => rfl
      | some i =>
          have hi := lt_length_of_bindingPlace? hplace
          simpa [isValid] using hi
  | lam name numeral body ih =>
      have hlength : ((name :: scope).length : Int) = scope.length + 1 := by simp
      have hbody := ih (name :: scope)
      rwa [hlength] at hbody
  | app f a ihf iha => rw [resolveIn_app, isValid, ihf, iha, Bool.and_self]

/-- All free variables have index zero. -/
def FreeAtZero (t : Term) : Prop :=
  ∀ π name index, t.at? π = some (.var name index true) → index = some 0

theorem freeAtZero_resolve (t : Term) : t.resolve.FreeAtZero := by
  intro π name index h
  rw [resolve_eq_resolveIn, at?_resolveIn, Option.map_eq_some_iff] at h
  obtain ⟨u, -, hu⟩ := h
  cases u using Term.induction with
  | var name' index' free' =>
      rw [resolveIn_var] at hu
      split at hu
      next => cases hu
      next =>
          cases hu
          rfl
  | lam | app => cases hu

/-- The name of an occurrence, if it has one that no abstraction of its scope binds. -/
def unboundName? (scope : List (Option String)) (t : Term) (π : Address) : Option String :=
  ((t.at? π).bind variableName?).filter fun x => some x ∉ t.binderNames π ++ scope

theorem freeVars_resolveIn (scope : List (Option String)) (t : Term) :
    (t.resolveIn scope).freeVars = t.occurrences.filterMap (unboundName? scope t) := by
  induction t using Term.induction generalizing scope with
  | var name index free =>
      have hunbound : unboundName? scope (.var name index free) [] =
          if bindingPlace? scope name = none then name else none := by
        cases name with
        | none => simp [unboundName?, at?, variableName?]
        | some x =>
            by_cases hx : some x ∈ scope <;>
              simp [unboundName?, at?, variableName?, binderNames, bindingPlace?_eq_none_iff,
                Option.filter, hx]
      rw [resolveIn_var, occurrences, List.filterMap_cons, List.filterMap_nil, hunbound]
      cases hplace : bindingPlace? scope name with
      | none => cases name <;> simp [freeVars]
      | some i => simp [freeVars]
  | lam name numeral body ih =>
      rw [resolveIn_lam, freeVars, ih, occurrences, List.filterMap_map]
      congr 1
      funext π
      simp [unboundName?, at?, binderNames]
  | app f a ihf iha =>
      rw [resolveIn_app, freeVars, ihf, iha, occurrences, List.filterMap_append,
        List.filterMap_map, List.filterMap_map]
      rfl

/-- **Resolution is exact.**  It keeps the shape of a term, its names and its tags.  A variable with
a name that an abstraction around it has gets the place of the innermost such abstraction; any other
is marked free and gets index zero.  So all indices are valid, the free variables are the
occurrences of names that no abstraction around them has, and there is nothing left to resolve. -/
theorem resolve_binds_innermost (t : Term) :
    t.resolve.unresolved = t.unresolved ∧
      (∀ π name index free, t.at? π = some (.var name index free) →
        (∀ i, name ≠ none → (t.binderNames π)[i]? = some name →
          (∀ j < i, (t.binderNames π)[j]? ≠ some name) →
          t.resolve.at? π = some (.var name (some i) false)) ∧
        (name = none ∨ name ∉ t.binderNames π →
          t.resolve.at? π = some (.var name (some 0) true))) ∧
      t.resolve.isResolved = true ∧ t.resolve.isValid 0 = true ∧
      t.resolve.freeVars = t.occurrences.filterMap (fun π =>
        ((t.at? π).bind variableName?).filter fun x => some x ∉ t.binderNames π) ∧
      t.resolve.resolve = t.resolve := by
  have hvalid : t.resolve.isValid 0 = true := isValid_resolveIn [] t
  refine ⟨unresolved_resolveIn [] t, fun π name index free hπ => ?_,
    isResolved_of_isValid hvalid, hvalid, ?_, resolveIn_resolveIn [] [] t⟩
  · have hat : t.resolve.at? π = some (resolveIn (t.binderNames π) (.var name index free)) := by
      rw [resolve_eq_resolveIn, at?_resolveIn, hπ, List.append_nil, Option.map_some]
    rw [hat, resolveIn_var]
    constructor
    · intro i hname hi hleast
      rw [bindingPlace?_eq_some_iff.mpr ⟨hname, hi, hleast⟩]
    · intro hunbound
      rw [bindingPlace?_eq_none_iff.mpr hunbound]
  · have hscope : unboundName? [] t = fun π =>
        ((t.at? π).bind variableName?).filter fun x => some x ∉ t.binderNames π := by
      funext π
      rw [unboundName?, List.append_nil]
    rw [resolve_eq_resolveIn, freeVars_resolveIn, hscope]

end Term

end Tromp
