import Tromp.Drawing.Layout

/-!
# Trees that can be drawn

A tree can be drawn when everything in it is in place: nothing in it is foreign, every variable has
an index, and the index of a variable that is not free is smaller than the number of abstractions
around it.  `Tree.IsDrawable` says so of every node of the tree, however deep it stands, and
**the checks before drawing accept exactly these trees** (`Tree.exists_drawable_iff`): that of the
leaves, that of the presence of indices and that of their size, which all walk the tree on their own.
A tree that is refused is refused by one of the three (`Tree.fault_of_drawable`).
-/

namespace Tromp

variable {ε : Type}

namespace Tree

/-! ### Foreign leaves -/

section Check

variable {name : Option String} {numeral : Option Int} {body f a t : Tree ε} {u : Term}

/-- A tree that is checked is not foreign. -/
theorem isForeign_of_check (h : t.check = .ok u) : Painter.isForeign t = false := by
  cases t with
  | foreign value => cases h
  | var | lam | app => rfl

/-- An abstraction is checked by its body. -/
theorem check_lam_eq_ok_iff :
    check (.lam name numeral body) = .ok u ↔
      ∃ v, check body = .ok v ∧ u = .lam name numeral v := by
  have hmap : ∀ x : Except (Malformed ε) Term, x.map (Tree.lam name numeral) = .ok u ↔
      ∃ v, x = .ok v ∧ u = .lam name numeral v := by
    intro x
    cases x <;> simp [Except.map, eq_comm]
  cases body with
  | foreign value => exact ⟨nofun, nofun⟩
  | var | lam | app => exact hmap _

theorem check_app_eq_ok_iff :
    check (.app f a) = .ok u ↔ ∃ v w, check f = .ok v ∧ check a = .ok w ∧ u = .app v w := by
  rw [check]
  cases check f <;> cases check a <;> simp [bind, Except.bind, pure, Except.pure, eq_comm]

end Check

/-! ### Nodes in their places -/

/-- The nodes of a tree, each with the number of abstractions around it: `t.Holds n u` when `u`
stands in `t` below `n` abstractions. -/
inductive Holds : Tree ε → Nat → Tree ε → Prop
  | root (t : Tree ε) : Holds t 0 t
  | body {name : Option String} {numeral : Option Int} {body u : Tree ε} {n : Nat}
      (h : Holds body n u) : Holds (.lam name numeral body) (n + 1) u
  | func {f a u : Tree ε} {n : Nat} (h : Holds f n u) : Holds (.app f a) n u
  | arg {f a u : Tree ε} {n : Nat} (h : Holds a n u) : Holds (.app f a) n u

/-- A node that may stand below so many abstractions, whatever is below it. -/
def IsPlaced (depth : Nat) : Tree ε → Prop
  | foreign _ => False
  | var _ index free => ∃ i, index = some i ∧ (free = false → i < depth)
  | lam .. => True
  | app .. => True

/-- Every node of the tree is in its place if the tree stands below so many abstractions. -/
def IsDrawableAt (depth : Nat) (t : Tree ε) : Prop := ∀ n u, t.Holds n u → u.IsPlaced (depth + n)

/-- Every node of the tree is in its place. -/
def IsDrawable (t : Tree ε) : Prop := ∀ n u, t.Holds n u → u.IsPlaced n

theorem isDrawable_iff {t : Tree ε} : t.IsDrawable ↔ t.IsDrawableAt 0 := by
  simp only [IsDrawable, IsDrawableAt, Nat.zero_add]

section Nodes

variable {depth : Nat} {name : Option String} {numeral : Option Int} {body f a : Tree ε}

theorem not_isDrawableAt_foreign (value : ε) : ¬ IsDrawableAt depth (.foreign value) :=
  fun h => h 0 _ (.root _)

theorem isDrawableAt_var {index : Option Nat} {free : Bool} :
    IsDrawableAt (ε := ε) depth (.var name index free) ↔
      ∃ i, index = some i ∧ (free = false → i < depth) := by
  constructor
  · intro h
    exact h 0 _ (.root _)
  · rintro h _ _ ⟨⟩
    exact h

theorem isDrawableAt_lam :
    IsDrawableAt depth (.lam name numeral body) ↔ body.IsDrawableAt (depth + 1) := by
  constructor
  · intro h n u hu
    rw [Nat.add_right_comm]
    exact h (n + 1) u (.body hu)
  · rintro h _ _ (⟨⟩ | ⟨hu⟩)
    · trivial
    · rw [← Nat.add_assoc, Nat.add_right_comm]
      exact h _ _ hu

theorem isDrawableAt_app :
    IsDrawableAt depth (.app f a) ↔ f.IsDrawableAt depth ∧ a.IsDrawableAt depth := by
  constructor
  · intro h
    exact ⟨fun n u hu => h n u (.func hu), fun n u hu => h n u (.arg hu)⟩
  · rintro ⟨hf, ha⟩ _ _ (⟨⟩ | ⟨⟩ | ⟨hu⟩ | ⟨hu⟩)
    · trivial
    · exact hf _ _ hu
    · exact ha _ _ hu

end Nodes

end Tree

theorem Term.isValid_var_iff {depth : Nat} {index : Option Nat} {free : Bool}
    (name : Option String) :
    Term.isValid depth (.var name index free) = true ↔
      ∃ i, index = some i ∧ (free = false → i < depth) := by
  cases index with
  | none => simp [Term.isValid]
  | some i => cases free <;> simp [Term.isValid]

namespace Tree

/-- **The checks see every node.**  A tree is a term with valid indices exactly when all its nodes
are in their places. -/
theorem exists_check_isValid_iff {t : Tree ε} {depth : Nat} :
    (∃ u : Term, t.check = .ok u ∧ u.isValid depth = true) ↔ t.IsDrawableAt depth := by
  induction t generalizing depth with
  | foreign value =>
      constructor
      · rintro ⟨u, hu, -⟩
        cases hu
      · exact fun h => absurd h (not_isDrawableAt_foreign value)
  | var name index free =>
      rw [isDrawableAt_var, ← Term.isValid_var_iff name]
      constructor
      · rintro ⟨u, hu, hvalid⟩
        obtain rfl : Tree.var name index free = u := Except.ok.inj hu
        exact hvalid
      · exact fun hvalid => ⟨_, rfl, hvalid⟩
  | lam name numeral body ih =>
      rw [isDrawableAt_lam, ← ih]
      constructor
      · rintro ⟨u, hu, hvalid⟩
        obtain ⟨v, hv, rfl⟩ := check_lam_eq_ok_iff.mp hu
        exact ⟨v, hv, hvalid⟩
      · rintro ⟨v, hv, hvalid⟩
        exact ⟨_, check_lam_eq_ok_iff.mpr ⟨v, hv, rfl⟩, hvalid⟩
  | app f a ihf iha =>
      rw [isDrawableAt_app, ← ihf, ← iha]
      constructor
      · rintro ⟨u, hu, hvalid⟩
        obtain ⟨v, w, hv, hw, rfl⟩ := check_app_eq_ok_iff.mp hu
        obtain ⟨hvalidf, hvalida⟩ := Bool.and_eq_true_iff.mp hvalid
        exact ⟨⟨v, hv, hvalidf⟩, w, hw, hvalida⟩
      · rintro ⟨⟨v, hv, hvalidf⟩, w, hw, hvalida⟩
        exact ⟨_, check_app_eq_ok_iff.mpr ⟨v, w, hv, hw, rfl⟩,
          Bool.and_eq_true_iff.mpr ⟨hvalidf, hvalida⟩⟩

/-! ### The checks before drawing -/

/-- A tree is drawn as the term it is, if its indices are valid. -/
theorem drawable_eq_ok_iff {t : Tree ε} {u : Term} :
    t.drawable = .ok u ↔ t.check = .ok u ∧ u.isValid 0 = true := by
  rw [drawable]
  cases t.check with
  | error m => exact ⟨nofun, nofun⟩
  | ok v =>
      by_cases hvalid : v.isValid 0 = true
      · simp only [Term.isResolved_of_isValid hvalid, hvalid, Bool.not_true, Bool.false_eq_true,
          if_false, Except.ok.injEq]
        constructor
        · rintro rfl
          exact ⟨rfl, hvalid⟩
        · exact And.left
      · have hfault : ∀ u, ¬ (v = u ∧ u.isValid 0 = true) := by
          rintro u ⟨rfl, h⟩
          exact hvalid h
        cases hresolved : v.isResolved <;> simp [hvalid, hresolved, hfault]

/-- **The checks before drawing** accept exactly the trees in which every node is in its place. -/
theorem exists_drawable_iff {t : Tree ε} : (∃ u, t.drawable = .ok u) ↔ t.IsDrawable := by
  rw [isDrawable_iff, ← exists_check_isValid_iff]
  exact exists_congr fun u => drawable_eq_ok_iff

instance (t : Tree ε) : Decidable t.IsDrawable :=
  decidable_of_iff (t.drawable.isOk = true) <| by
    rw [← exists_drawable_iff]
    cases t.drawable <;> simp [Except.isOk, Except.toBool]

/-- The checks refuse a tree for one of three reasons, none of which names a variable. -/
theorem fault_of_drawable {t : Tree ε} {fault : StructuralFault ε} (h : t.drawable = .error fault) :
    (∃ m, t.check = .error m ∧ fault = .malformed m.node) ∨ fault = .unresolved ∨
      fault = .pastLambdas := by
  rw [drawable] at h
  cases hcheck : t.check with
  | error m =>
      rw [hcheck] at h
      cases h
      exact .inl ⟨m, rfl, rfl⟩
  | ok u =>
      rw [hcheck] at h
      simp only at h
      split at h
      · cases h
        exact .inr (.inl rfl)
      · split at h
        · cases h
          exact .inr (.inr rfl)
        · cases h

end Tree

namespace Term

/-- A term has no foreign leaves. -/
theorem check_eq_ok (t : Term) : Tree.check t = .ok t := by
  induction t using Term.induction with
  | var name index free => rfl
  | lam name numeral body ih => exact Tree.check_lam_eq_ok_iff.mpr ⟨body, ih, rfl⟩
  | app f a ihf iha => exact Tree.check_app_eq_ok_iff.mpr ⟨f, a, ihf, iha, rfl⟩

/-- A term can be drawn exactly when its indices are valid. -/
theorem drawable_eq_ok_iff {t u : Term} :
    Tree.drawable t = .ok u ↔ t.isValid 0 = true ∧ t = u := by
  rw [Tree.drawable_eq_ok_iff, check_eq_ok, Except.ok.injEq]
  constructor
  · rintro ⟨rfl, hvalid⟩
    exact ⟨hvalid, rfl⟩
  · rintro ⟨hvalid, rfl⟩
    exact ⟨rfl, hvalid⟩

end Term

end Tromp
