import Mathlib.Data.List.Nodup
import Tromp.Proofs.Term.Address

/-!
# Occurrences of variables and of applications

`Term.occurrences` lists where the variables of a term stand, from left to right.  The key fact is
`Term.map_column_occurrences`: the place of a variable in that list is its column in the diagram of
the term, so a term has as many occurrences as its diagram has columns, and no column belongs to two
of them.

`Term.joints` lists where the applications stand, each between those of its function and those of
its argument.  By `Term.map_column_joints` the arguments begin in all the columns but the first,
one in each.
-/

namespace Tromp.Term

/-- The addresses of the variables of a term, from left to right. -/
def occurrences : Term → List Address
  | .var .. => [[]]
  | .lam _ _ body => (occurrences body).map (Turn.body :: ·)
  | .app f a => (occurrences f).map (Turn.func :: ·) ++ (occurrences a).map (Turn.arg :: ·)

/-- What occurs is what is a variable. -/
theorem mem_occurrences_iff {t : Term} {π : Address} :
    π ∈ t.occurrences ↔ ∃ name index free, t.at? π = some (.var name index free) := by
  induction t using Term.induction generalizing π with
  | var name index free =>
      cases π with
      | nil => simp [occurrences, at?]
      | cons turn π => cases turn <;> simp [occurrences, at?]
  | lam name numeral body ih =>
      cases π with
      | nil => simp [occurrences, at?]
      | cons turn π => cases turn <;> simp [occurrences, at?, ih]
  | app f a ihf iha =>
      cases π with
      | nil => simp [occurrences, at?]
      | cons turn π => cases turn <;> simp [occurrences, at?, ihf, iha]

/-- **Occurrences are numbered by columns.** -/
theorem map_column_occurrences (t : Term) :
    t.occurrences.map t.column = List.range t.width := by
  induction t using Term.induction with
  | var name index free => rfl
  | lam name numeral body ih =>
      rw [occurrences, List.map_map]
      exact ih
  | app f a ihf iha =>
      rw [occurrences, List.map_append, List.map_map, List.map_map, width, List.range_add, ← ihf,
        ← iha, List.map_map]
      rfl

theorem length_occurrences (t : Term) : t.occurrences.length = t.width := by
  simpa using congrArg List.length t.map_column_occurrences

/-- The variable number `k` from the left is the one that stands in column `k`. -/
theorem occurrences_getElem?_eq_some_iff {t : Term} {k : Nat} {π : Address} :
    t.occurrences[k]? = some π ↔ π ∈ t.occurrences ∧ t.column π = k := by
  have hcolumn : ∀ {j : Nat} {ρ : Address}, t.occurrences[j]? = some ρ → t.column ρ = j := by
    intro j ρ hj
    have hrange : (List.range t.width)[j]? = some (t.column ρ) := by
      rw [← map_column_occurrences, List.getElem?_map, hj]
      rfl
    obtain ⟨hlt, hvalue⟩ := List.getElem?_eq_some_iff.mp hrange
    rw [← hvalue, List.getElem_range]
  constructor
  · intro hk
    exact ⟨List.mem_of_getElem? hk, hcolumn hk⟩
  · rintro ⟨hmem, rfl⟩
    obtain ⟨j, hj⟩ := List.mem_iff_getElem?.mp hmem
    rwa [hcolumn hj]

/-- No two variables stand in one column. -/
theorem eq_of_column_eq {t : Term} {π π' : Address} (hπ : π ∈ t.occurrences)
    (hπ' : π' ∈ t.occurrences) (h : t.column π = t.column π') : π = π' := by
  have hfirst := occurrences_getElem?_eq_some_iff.mpr ⟨hπ, h⟩
  have hsecond := occurrences_getElem?_eq_some_iff.mpr ⟨hπ', rfl⟩
  exact Option.some.inj (hfirst.symm.trans hsecond)

/-! ### Applications -/

/-- The addresses of the applications of a term, each between those of its operands. -/
def joints : Term → List Address
  | .var .. => []
  | .lam _ _ body => (joints body).map (Turn.body :: ·)
  | .app f a =>
    (joints f).map (Turn.func :: ·) ++ [] :: (joints a).map (Turn.arg :: ·)

theorem mem_joints_iff {t : Term} {ρ : Address} :
    ρ ∈ t.joints ↔ ∃ f a, t.at? ρ = some (.app f a) := by
  induction t using Term.induction generalizing ρ with
  | var name index free =>
      cases ρ with
      | nil => simp [joints, at?]
      | cons turn ρ => cases turn <;> simp [joints, at?]
  | lam name numeral body ih =>
      cases ρ with
      | nil => simp [joints, at?]
      | cons turn ρ => cases turn <;> simp [joints, at?, ih]
  | app f a ihf iha =>
      cases ρ with
      | nil => simp [joints, at?]
      | cons turn ρ => cases turn <;> simp [joints, at?, ihf, iha]

/-- **Applications are numbered by the columns of their arguments**, from the second one on. -/
theorem map_column_joints (t : Term) :
    t.joints.map (fun ρ => t.column (ρ ++ [.arg])) = List.range' 1 (t.width - 1) := by
  induction t using Term.induction with
  | var name index free => rfl
  | lam name numeral body ih =>
      rw [joints, List.map_map]
      exact ih
  | app f a ihf iha =>
      have hf := f.width_pos
      have ha := a.width_pos
      have hright : List.range' (f.width + 1) (a.width - 1) =
          a.joints.map fun ρ => f.width + a.column (ρ ++ [.arg]) := by
        rw [← List.map_add_range', ← iha, List.map_map]
        rfl
      have hwidth : f.width + a.width - 1 = (f.width - 1) + ((a.width - 1) + 1) := by omega
      rw [joints, List.map_append, List.map_map, List.map_cons, List.map_map, width, hwidth,
        ← List.range'_append_1, ← ihf, List.range'_succ, show 1 + (f.width - 1) = f.width by omega,
        hright]
      simp [Function.comp_def, column]

/-- **One argument for each column** but the first. -/
theorem existsUnique_application {t : Term} {k : Nat} (hpos : 0 < k) (hk : k < t.width) :
    ∃ ρ f a, t.at? ρ = some (.app f a) ∧ t.column (ρ ++ [.arg]) = k ∧
      ∀ ρ' f' a', t.at? ρ' = some (.app f' a') → t.column (ρ' ++ [.arg]) = k → ρ' = ρ := by
  have hnodup : (t.joints.map fun ρ => t.column (ρ ++ [.arg])).Nodup := by
    rw [map_column_joints]
    exact List.nodup_range'
  have hmem : k ∈ t.joints.map fun ρ => t.column (ρ ++ [.arg]) := by
    rw [map_column_joints, List.mem_range'_1]
    omega
  obtain ⟨ρ, hρ, hcolumn⟩ := List.mem_map.mp hmem
  obtain ⟨f, a, happ⟩ := mem_joints_iff.mp hρ
  refine ⟨ρ, f, a, happ, hcolumn, fun ρ' f' a' happ' hcolumn' => ?_⟩
  have hρ' := mem_joints_iff.mpr ⟨f', a', happ'⟩
  exact List.inj_on_of_nodup_map hnodup hρ' hρ (hcolumn'.trans hcolumn.symm)

end Tromp.Term
