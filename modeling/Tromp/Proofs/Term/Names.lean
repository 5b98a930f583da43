import Mathlib.Data.Fintype.EquivFin
import Tromp.Term.Tree

/-!
# Names of a term

`Term.names` lists the names of a term from left to right, those of binders and those of variables.
A term is *named* when none of them is missing.  `Term.rename` replaces a name where it is free: the
abstractions over that name, and what stands below them, stay as they are.

Renaming changes neither the shape of a term nor the number of its nodes, and a named term stays
named.  There is always a name that a term does not have (`Term.exists_fresh`).
-/

namespace Tromp.Term

/-- The names of the binders and variables of a term, from left to right: a binder stands before
its body, and a function before its argument. -/
def names : Term → List (Option String)
  | .var name .. => [name]
  | .lam name _ body => name :: names body
  | .app f a => names f ++ names a

/-- No binder and no variable is without a name. -/
def IsNamed (t : Term) : Prop := none ∉ t.names

instance (t : Term) : Decidable t.IsNamed := inferInstanceAs (Decidable (none ∉ t.names))

theorem isNamed_var {name : Option String} {index : Option Nat} {free : Bool} :
    IsNamed (.var name index free) ↔ ∃ x, name = some x := by
  cases name <;> simp [IsNamed, names]

theorem isNamed_lam {name : Option String} {numeral : Option Int} {body : Term} :
    IsNamed (.lam name numeral body) ↔ (∃ x, name = some x) ∧ body.IsNamed := by
  cases name <;> simp [IsNamed, names]

theorem isNamed_app {f a : Term} : IsNamed (.app f a) ↔ f.IsNamed ∧ a.IsNamed := by
  simp [IsNamed, names]

/-- A name after `x` became `y`. -/
def renameName (x y name : String) : String := if name = x then y else name

/-- The term in which `y` stands for `x` wherever `x` is free. -/
def rename (x y : String) : Term → Term
  | .var name index free => .var (name.map (renameName x y)) index free
  | .lam name numeral body => .lam name numeral (if name = some x then body else rename x y body)
  | .app f a => .app (rename x y f) (rename x y a)

/-- A term has at least one node. -/
theorem size_pos (t : Term) : 0 < t.size := by
  induction t using Term.induction with
  | var name index free => exact Nat.one_pos
  | lam name numeral body ih => exact Nat.add_pos_left Nat.one_pos _
  | app f a ihf iha => exact Nat.add_pos_left ihf _

theorem size_rename (x y : String) (t : Term) : (t.rename x y).size = t.size := by
  induction t using Term.induction with
  | var name index free => rfl
  | lam name numeral body ih =>
      by_cases hname : name = some x
      · simp [rename, hname]
      · simp [rename, hname, size, ih]
  | app f a ihf iha => simp [rename, size, ihf, iha]

theorem IsNamed.rename {t : Term} (h : t.IsNamed) (x y : String) : (t.rename x y).IsNamed := by
  induction t using Term.induction with
  | var name index free =>
      obtain ⟨z, rfl⟩ := isNamed_var.mp h
      exact isNamed_var.mpr ⟨renameName x y z, rfl⟩
  | lam name numeral body ih =>
      obtain ⟨hname, hbody⟩ := isNamed_lam.mp h
      refine isNamed_lam.mpr ⟨hname, ?_⟩
      by_cases hx : name = some x
      · simpa [hx] using hbody
      · simpa [hx] using ih hbody
  | app f a ihf iha =>
      obtain ⟨hf, ha⟩ := isNamed_app.mp h
      exact isNamed_app.mpr ⟨ihf hf, iha ha⟩

/-- There is a name that neither of two terms has. -/
theorem exists_fresh (t u : Term) : ∃ z : String, some z ∉ t.names ∧ some z ∉ u.names := by
  obtain ⟨z, hz⟩ := Infinite.exists_notMem_finset ((t.names ++ u.names).filterMap id).toFinset
  have hnames : ∀ n ∈ t.names ++ u.names, n ≠ some z := by
    rintro n hn rfl
    exact hz (List.mem_toFinset.mpr (List.mem_filterMap.mpr ⟨some z, hn, rfl⟩))
  exact ⟨z, fun h => hnames _ (List.mem_append_left _ h) rfl,
    fun h => hnames _ (List.mem_append_right _ h) rfl⟩

end Tromp.Term
