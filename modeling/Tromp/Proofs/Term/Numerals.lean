import Tromp.Proofs.Term.Annotations
import Tromp.Proofs.Term.Literals

/-!
# Numerals recognized

Below its two abstractions a numeral is a chain of applications of `f` that ends in `x`.  The number
is found by a loop that counts down this chain, and that gives up at anything else.

1.  A chain of `n` applications is the body of the numeral of `n`, names and tags aside
    (`Term.iterations?_eq_some_iff`), so nothing but a numeral is taken for one.
2.  A turn of the loop either gives the answer or keeps it and goes on to a smaller term
    (`Count.turn_spec`).  So the loop ends, in no more turns than the term is large
    (`Count.exists_ends`), and always with the number of the chain (`Count.Ends.eq_total?`).
-/

namespace Tromp

/-! ### Chains of applications -/

namespace Tree

variable {ε : Type} {t : Tree ε} {n : Nat}

/-- A chain without applications is the variable of the inner abstraction. -/
theorem iterations?_eq_some_zero_iff :
    t.iterations? = some 0 ↔ ∃ name, t = .var name (some 0) false := by
  fun_cases iterations? t with
  | case1 name => simp
  | case2 name rest => simp
  | case3 t hvar happ => simpa using hvar

/-- A longer chain applies the variable of the outer abstraction to the rest of the chain. -/
theorem iterations?_eq_some_succ_iff : t.iterations? = some (n + 1) ↔
    ∃ name rest, t = .app (.var name (some 1) false) rest ∧ rest.iterations? = some n := by
  fun_cases iterations? t with
  | case1 name => simp
  | case2 name rest => simp
  | case3 t hvar happ =>
      simp only [reduceCtorEq, false_iff]
      rintro ⟨name, rest, heq, -⟩
      exact happ name rest heq

end Tree

namespace Term

theorem iterations?_nameless (t : Term) : Tree.iterations? t.nameless = Tree.iterations? t := by
  rw [nameless_eq_relabel, iterations?_relabel]

theorem booleanValue?_nameless (t : Term) :
    Tree.booleanValue? t.nameless = Tree.booleanValue? t := by
  rw [nameless_eq_relabel, booleanValue?_relabel]

theorem nameless_eq_of_iterations? {t : Term} {n : Nat} (h : Tree.iterations? t = some n) :
    t.nameless = (iterate n).nameless := by
  induction n generalizing t with
  | zero =>
      obtain ⟨name, rfl⟩ := Tree.iterations?_eq_some_zero_iff.mp h
      rfl
  | succ n ih =>
      obtain ⟨name, rest, rfl, hrest⟩ := Tree.iterations?_eq_some_succ_iff.mp h
      rw [nameless, nameless, ih hrest]
      rfl

/-- The chains of `n` applications are the bodies of the numeral of `n`. -/
theorem iterations?_eq_some_iff {t : Term} {n : Nat} :
    Tree.iterations? t = some n ↔ t.nameless = (iterate n).nameless := by
  constructor
  · exact nameless_eq_of_iterations?
  · intro h
    rw [← iterations?_nameless, h, iterations?_nameless, iterations?_iterate]

theorem nameless_church (n : Nat) :
    (church n).nameless = .lam none none (.lam none none (iterate n).nameless) := rfl

/-- **Nothing but a numeral is recognized as one.** -/
theorem churchValue?_eq_some_iff {t : Term} {n : Nat} :
    Tree.churchValue? t = some n ↔ t.nameless = (church n).nameless := by
  rw [nameless_church]
  cases t using Term.induction with
  | var name index free => simp [Tree.churchValue?, nameless]
  | app f a => simp [Tree.churchValue?, nameless]
  | lam name numeral body =>
      cases body using Term.induction with
      | var name' index free => simp [Tree.churchValue?, nameless]
      | app f a => simp [Tree.churchValue?, nameless]
      | lam name' numeral' inner =>
          simpa [Tree.churchValue?, nameless] using iterations?_eq_some_iff (t := inner)

theorem churchValue?_eq_none_iff {t : Term} :
    Tree.churchValue? t = none ↔ ∀ n, t.nameless ≠ (church n).nameless := by
  simp only [ne_eq, ← churchValue?_eq_some_iff, Option.eq_none_iff_forall_ne_some]

/-- The selector of the second of two arguments is the numeral of zero. -/
theorem booleanValue?_eq_some_false_iff {t : Term} :
    Tree.booleanValue? t = some false ↔ Tree.churchValue? t = some 0 := by
  constructor
  · fun_cases Tree.booleanValue? t with
    | case1 =>
        intro h
        cases h
    | case2 =>
        intro _
        rfl
    | case3 =>
        intro h
        cases h
  · intro h
    rw [← booleanValue?_nameless, churchValue?_eq_some_iff.mp h]
    rfl

end Term

/-! ### The loop -/

/-- Where the search for the number of a numeral stands: the applications it has passed, and the
term it looks at next. -/
structure Count where
  passed : Nat
  inner : Term

namespace Count

/-- The search in a term starts below its first two abstractions. -/
def start? : Term → Option Count
  | .lam _ _ (.lam _ _ inner) => some ⟨0, inner⟩
  | _ => none

/-- A turn of the loop comes to an answer, or to where the next turn goes on. -/
def turn : Count → Option Nat ⊕ Count
  | ⟨passed, .var _ (some 0) false⟩ => .inl (some passed)
  | ⟨passed, .app (.var _ (some 1) false) rest⟩ => .inr ⟨passed + 1, rest⟩
  | _ => .inl none

/-- The loop ends in so many turns with an answer. -/
inductive Ends : Count → Nat → Option Nat → Prop
  | here {c : Count} {answer : Option Nat} (h : c.turn = .inl answer) : Ends c 1 answer
  | later {c next : Count} {turns : Nat} {answer : Option Nat} (h : c.turn = .inr next)
      (rest : Ends next turns answer) : Ends c (turns + 1) answer

/-- What is still to be counted, on top of the applications passed. -/
def total? (c : Count) : Option Nat := (Tree.iterations? c.inner).map (c.passed + ·)

variable {c next : Count} {turns : Nat} {answer : Option Nat}

/-- **A turn keeps the answer**, and if it does not give it, it leaves a smaller term. -/
theorem turn_spec (c : Count) :
    c.turn.elim (· = c.total?) fun next =>
      next.total? = c.total? ∧ next.inner.size < c.inner.size := by
  fun_cases turn c with
  | case1 passed name => rfl
  | case2 passed name rest =>
      constructor
      · simp only [total?, Tree.iterations?, Option.map_map]
        congr 1
        funext k
        exact Nat.add_right_comm passed 1 k
      · exact Nat.lt_one_add_iff.mpr le_rfl
  | case3 c hvar happ =>
      cases hinner : Tree.iterations? c.inner with
      | none => rw [Sum.elim_inl, total?, hinner, Option.map_none]
      | some n =>
          cases n with
          | zero =>
              obtain ⟨name, h⟩ := Tree.iterations?_eq_some_zero_iff.mp hinner
              exact (hvar c.passed name (by rw [← h])).elim
          | succ n =>
              obtain ⟨name, rest, h, -⟩ := Tree.iterations?_eq_some_succ_iff.mp hinner
              exact (happ c.passed name rest (by rw [← h])).elim

theorem turn_eq_inl (h : c.turn = .inl answer) : answer = c.total? := by
  simpa [h] using c.turn_spec

theorem turn_eq_inr (h : c.turn = .inr next) :
    next.total? = c.total? ∧ next.inner.size < c.inner.size := by
  simpa [h] using c.turn_spec

theorem Ends.eq_total? (h : c.Ends turns answer) : answer = c.total? := by
  induction h with
  | here h => exact turn_eq_inl h
  | later h rest ih => rw [ih, (turn_eq_inr h).1]

/-- **The loop ends.**  By induction on the size of the term ahead, which every turn makes
smaller. -/
theorem exists_ends (c : Count) : ∃ turns ≤ c.inner.size, c.Ends turns c.total? := by
  induction hsize : c.inner.size using Nat.strong_induction_on generalizing c with
  | _ size ih =>
      cases hturn : c.turn with
      | inl answer =>
          have hpos := c.inner.size_pos
          refine ⟨1, by omega, ?_⟩
          rw [← turn_eq_inl hturn]
          exact .here hturn
      | inr next =>
          obtain ⟨htotal, hsmaller⟩ := turn_eq_inr hturn
          obtain ⟨turns, hturns, hends⟩ := ih next.inner.size (hsize ▸ hsmaller) next rfl
          refine ⟨turns + 1, by omega, ?_⟩
          rw [← htotal]
          exact .later hturn hends

/-- The loop ends in every state with what is still to be counted, and with nothing else. -/
theorem exists_ends_iff (c : Count) (answer : Option Nat) :
    (∃ turns ≤ c.inner.size, c.Ends turns answer) ↔ answer = c.total? := by
  constructor
  · rintro ⟨turns, -, hends⟩
    exact hends.eq_total?
  · intro h
    rw [h]
    exact c.exists_ends

/-- The value of a term is what its search has to count. -/
theorem churchValue?_eq_bind (t : Term) : Tree.churchValue? t = (start? t).bind total? := by
  fun_cases start? t with
  | case1 => simp [Tree.churchValue?, total?]
  | case2 t hlam =>
      rw [Tree.churchValue?, Option.bind_none]
      exact hlam

end Count

/-- **Numerals are recognized exactly.**  The value of a term is `n` if the term is the numeral of
`n` up to names and tags, and there is none if it is no numeral.  The truth value is false exactly
if the value is zero.  A term that does not start with two abstractions has no value, and from the
others the loop comes to an end, with the value and with nothing else. -/
theorem recognition_exact (t : Term) :
    (∀ n, Tree.churchValue? t = some n ↔ t.nameless = (Term.church n).nameless) ∧
      (Tree.churchValue? t = none ↔ ∀ n, t.nameless ≠ (Term.church n).nameless) ∧
      (Tree.booleanValue? t = some false ↔ Tree.churchValue? t = some 0) ∧
      match Count.start? t with
      | none => Tree.churchValue? t = none
      | some c => ∀ answer,
          (∃ turns ≤ c.inner.size, c.Ends turns answer) ↔ answer = Tree.churchValue? t := by
  refine ⟨fun n => Term.churchValue?_eq_some_iff, Term.churchValue?_eq_none_iff,
    Term.booleanValue?_eq_some_false_iff, ?_⟩
  cases hstart : Count.start? t with
  | none => rw [Count.churchValue?_eq_bind, hstart, Option.bind_none]
  | some c =>
      intro answer
      rw [Count.churchValue?_eq_bind, hstart, Option.bind_some]
      exact c.exists_ends_iff answer

end Tromp
