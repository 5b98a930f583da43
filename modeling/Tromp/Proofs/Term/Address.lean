import Tromp.Term.Tree

/-!
# Addresses

An address says where a term stands in another one: it lists the turns on the way down to it.
`Address.depth` counts the abstractions on that way, and `Address.enclosing` lists their addresses,
innermost first, so that a De Bruijn index is a place in that list.  `Address.enclosing_getElem?`
says what the place means: exactly so many abstractions are crossed before that one is reached.

The variables left of an address are its *column* in the diagram of the term.  Columns add up along
an address, and what stands there fits into the columns of the term around it.
-/

namespace Tromp

/-- A turn on the way down: into the body of an abstraction, or into the function or the argument of
an application. -/
inductive Turn where
  | body
  | func
  | arg
deriving DecidableEq, Repr

/-- Where a term stands in another one: the turns on the way down to it. -/
abbrev Address := List Turn

namespace Address

/-- The number of abstractions on the way to an address. -/
def depth : Address → Nat
  | [] => 0
  | .body :: π => depth π + 1
  | .func :: π => depth π
  | .arg :: π => depth π

/-- The addresses of the abstractions on the way to an address, innermost first. -/
def enclosing : Address → List Address
  | [] => []
  | .body :: π => (enclosing π).map (Turn.body :: ·) ++ [[]]
  | .func :: π => (enclosing π).map (Turn.func :: ·)
  | .arg :: π => (enclosing π).map (Turn.arg :: ·)

theorem depth_append (π σ : Address) : depth (π ++ σ) = depth π + depth σ := by
  induction π with
  | nil => simp [depth]
  | cons turn π ih =>
      cases turn with
      | body =>
          simp only [List.cons_append, depth, ih]
          omega
      | func => exact ih
      | arg => exact ih

theorem length_enclosing (π : Address) : (enclosing π).length = depth π := by
  induction π with
  | nil => rfl
  | cons turn π ih => cases turn <;> simp [enclosing, depth, ih]

/-- A place in a list of addresses, seen from one turn above. -/
theorem getElem?_map_cons {turn : Turn} {below : List Address} {i : Nat} {ρ : Address}
    (h : (below.map (turn :: ·))[i]? = some ρ) : ∃ ρ', below[i]? = some ρ' ∧ ρ = turn :: ρ' := by
  rw [List.getElem?_map, Option.map_eq_some_iff] at h
  obtain ⟨ρ', hρ', rfl⟩ := h
  exact ⟨ρ', hρ', rfl⟩

/-- **Crossing abstractions.**  The place of an enclosing abstraction is the number of abstractions
below it that the way to the address crosses. -/
theorem enclosing_getElem? {π : Address} {i : Nat} {ρ : Address}
    (h : (enclosing π)[i]? = some ρ) : ∃ σ, π = ρ ++ .body :: σ ∧ depth σ = i := by
  induction π generalizing i ρ with
  | nil => simp [enclosing] at h
  | cons turn π ih =>
      have hbelow : ∀ turn, ((enclosing π).map (turn :: ·))[i]? = some ρ →
          ∃ σ, turn :: π = ρ ++ .body :: σ ∧ depth σ = i := by
        intro turn hturn
        obtain ⟨ρ', hρ', rfl⟩ := getElem?_map_cons hturn
        obtain ⟨σ, rfl, hσ⟩ := ih hρ'
        exact ⟨σ, rfl, hσ⟩
      cases turn with
      | func => exact hbelow _ h
      | arg => exact hbelow _ h
      | body =>
          rcases Nat.lt_or_ge i (depth π) with hi | hi
          · refine hbelow _ ?_
            rwa [enclosing, List.getElem?_append_left] at h
            simpa [length_enclosing] using hi
          · rw [enclosing, List.getElem?_append_right (by simpa [length_enclosing] using hi)] at h
            obtain ⟨hlast, rfl⟩ := List.getElem?_eq_some_iff.mp h
            simp only [List.length_map, length_enclosing, List.length_singleton] at hlast
            exact ⟨π, by simp, by omega⟩

end Address

namespace Term

/-- The term at an address. -/
def at? : Term → Address → Option Term
  | t, [] => some t
  | .lam _ _ body, .body :: π => at? body π
  | .app f _, .func :: π => at? f π
  | .app _ a, .arg :: π => at? a π
  | _, _ => none

/-- The number of variables left of an address. -/
def column : Term → Address → Nat
  | _, [] => 0
  | .lam _ _ body, .body :: π => column body π
  | .app f _, .func :: π => column f π
  | .app f a, .arg :: π => width f + column a π
  | _, _ => 0

/-- A term has at least one variable. -/
theorem width_pos (t : Term) : 0 < t.width := by
  induction t using Term.induction with
  | var name index free => exact Nat.one_pos
  | lam name numeral body ih => exact ih
  | app f a ihf iha => exact Nat.add_pos_left ihf _

/-- Addresses are followed one after the other. -/
theorem at?_append (t : Term) (π σ : Address) :
    t.at? (π ++ σ) = (t.at? π).bind fun u => u.at? σ := by
  induction π generalizing t with
  | nil => cases t <;> rfl
  | cons turn π ih => cases turn <;> cases t <;> simp [at?, ih]

/-- Columns add up along an address. -/
theorem column_append {t u : Term} {π : Address} (h : t.at? π = some u) (σ : Address) :
    t.column (π ++ σ) = t.column π + u.column σ := by
  fun_induction at? t π with
  | case1 t =>
      cases h
      simp [column]
  | case2 name numeral body π ih => exact ih h
  | case3 f a π ih => exact ih h
  | case4 f a π ih => simpa [column, Nat.add_assoc] using ih h
  | case5 => cases h

/-- What stands at an address lies within the columns of the term around it. -/
theorem column_add_width_le {t u : Term} {π : Address} (h : t.at? π = some u) :
    t.column π + u.width ≤ t.width := by
  fun_induction at? t π with
  | case1 t =>
      cases h
      simp [column]
  | case2 name numeral body π ih => exact ih h
  | case3 f a π ih =>
      have := ih h
      simp only [column, width]
      omega
  | case4 f a π ih =>
      have := ih h
      simp only [column, width]
      omega
  | case5 => cases h

/-- **What binds stands around.**  An abstraction on the way to an address has what stands there in
its body, within the columns of the body. -/
theorem exists_lam_of_at? {t u : Term} {ρ σ : Address} (h : t.at? (ρ ++ .body :: σ) = some u) :
    ∃ name numeral body, t.at? ρ = some (.lam name numeral body) ∧
      t.column ρ ≤ t.column (ρ ++ .body :: σ) ∧
      t.column (ρ ++ .body :: σ) + u.width ≤ t.column ρ + width body := by
  rw [at?_append, Option.bind_eq_some_iff] at h
  obtain ⟨v, hv, hu⟩ := h
  obtain ⟨name, numeral, body, rfl⟩ : ∃ name numeral body, v = .lam name numeral body := by
    cases v with
    | lam name numeral body => exact ⟨name, numeral, body, rfl⟩
    | foreign | var | app => cases hu
  have hsum := column_append hv (.body :: σ)
  have hfits := column_add_width_le hu
  simp only [width] at hfits
  exact ⟨name, numeral, body, hv, by omega, by omega⟩

end Term

end Tromp
