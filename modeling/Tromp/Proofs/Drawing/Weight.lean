import Tromp.Proofs.Drawing.Dimensions
import Tromp.Proofs.Term.Numerals

/-!
# What a tree counts up to

The *weight* of a tree is one number above all that is counted in drawing it: its columns and rows,
the indices of its variables, and the letters of its labels (`Painter.size_le_weight`,
`Painter.length_variableText_le`, `Painter.length_abstractionText_le`, `Painter.length_operator_le`).
It adds up over the nodes, and the number of a numeral is part of it.
-/

namespace Tromp

variable {ε : Type}

namespace Tree

/-- The nodes of a tree, together with the letters of its names, its indices and its numerals. -/
def weight : Tree ε → Nat
  | foreign _ => 0
  | var name index _ => 1 + (name.getD "").length + index.getD 0
  | lam name numeral body => 1 + (name.getD "").length + (numeral.getD 0).natAbs + weight body
  | app f a => 1 + weight f + weight a

variable {name : Option String} {numeral : Option Int} {body f a t : Tree ε}

theorem weight_body_le : body.weight ≤ (lam name numeral body).weight := Nat.le_add_left _ _

theorem weight_func_le : f.weight ≤ (app f a).weight := by
  rw [weight]
  omega

theorem weight_arg_le : a.weight ≤ (app f a).weight := Nat.le_add_left _ _

/-- A term has at most so many columns and rows. -/
theorem size_le_weight {u : Term} (h : t.check = .ok u) :
    u.width ≤ t.weight ∧ u.height ≤ t.weight := by
  induction t generalizing u with
  | foreign value => cases h
  | var name index free =>
      obtain rfl : Tree.var name index free = u := Except.ok.inj h
      simp only [weight, Term.width, Term.height]
      omega
  | lam name numeral body ih =>
      obtain ⟨v, hv, rfl⟩ := check_lam_eq_ok_iff.mp h
      obtain ⟨hwidth, hheight⟩ := ih hv
      simp only [weight, Term.width, Term.height]
      omega
  | app f a ihf iha =>
      obtain ⟨v, w, hv, hw, rfl⟩ := check_app_eq_ok_iff.mp h
      obtain ⟨hwidthf, hheightf⟩ := ihf hv
      obtain ⟨hwidtha, hheighta⟩ := iha hw
      simp only [weight, Term.width, Term.height]
      omega

/-- The iterations of a numeral are nodes. -/
theorem iterations?_le_weight {n : Nat} (h : n ∈ t.iterations?) : n ≤ t.weight := by
  induction n generalizing t with
  | zero => exact Nat.zero_le _
  | succ n ih =>
      obtain ⟨name, rest, rfl, hrest⟩ := iterations?_eq_some_succ_iff.mp h
      have := ih hrest
      simp only [weight]
      omega

theorem churchValue?_le_weight {n : Nat} (h : n ∈ t.churchValue?) : n ≤ t.weight := by
  unfold churchValue? at h
  split at h
  next body =>
      have := iterations?_le_weight h
      simp only [weight]
      omega
  next => cases h

end Tree

/-- A natural number is written with at most one digit more than it counts. -/
theorem length_toString_le (n : Nat) : (toString n).length ≤ n + 1 := by
  rw [Nat.toString_eq_repr, Nat.length_repr_le_iff n.succ_pos]
  exact n.lt_succ_self.trans (Nat.lt_pow_self (by decide))

theorem length_toString_int_le (n : Int) : (toString n).length ≤ n.natAbs + 2 := by
  cases n with
  | ofNat m =>
      have := length_toString_le m
      exact Nat.le_succ_of_le this
  | negSucc m =>
      have := length_toString_le (m + 1)
      have hsign : toString (Int.negSucc m) = "-" ++ toString (m + 1) := rfl
      have hlength : "-".length = 1 := by decide
      rw [hsign, String.length_append, hlength, Int.natAbs_negSucc]
      omega

namespace Painter

variable {α : Type} {p : Painter α} {name : Option String} {numeral : Option Int}
  {body f : Tree ε}

/-- The label of a variable has at most as many letters. -/
theorem length_variableText_le {index : Nat} {free : Bool} :
    (p.variableText name index).length ≤ (Tree.var (ε := ε) name (some index) free).weight := by
  have hindex := length_toString_le index
  simp only [Tree.weight, Option.getD_some]
  unfold variableText
  split
  next x _ =>
      split
      · omega
      · simp only [Option.getD_some]
        omega
  · omega

/-- The label of an abstraction has a few letters more at most. -/
theorem length_abstractionText_le :
    (abstractionText name numeral body).length ≤ (Tree.lam name numeral body).weight + 5 := by
  cases numeral with
  | some n =>
      have : (toString n).length ≤ n.natAbs + 2 := length_toString_int_le n
      simp only [abstractionText, Tree.weight, Option.getD_some]
      omega
  | none =>
      unfold abstractionText
      cases (Tree.lam name none body).booleanValue? with
      | some b =>
          have : (if b then "true" else "false").length ≤ 5 := by cases b <;> decide
          exact this.trans (Nat.le_add_left 5 _)
      | none =>
          cases hpositive : positiveNumeral? name body with
          | some n =>
              have hdigits : (toString n).length ≤ n + 1 := length_toString_le n
              have hn : n ≤ (Tree.lam name none body).weight :=
                Tree.churchValue?_le_weight (Option.filter_eq_some_iff.mp hpositive).1
              exact hdigits.trans (Nat.add_le_add hn (by decide))
          | none =>
              have hlambda : "λ".length = 1 := by decide
              rw [String.length_append, hlambda]
              simp only [Tree.weight]
              omega

/-- The label of an operator has at most as many letters. -/
theorem length_operator_le {x : String} (h : operator? f = some x) : x.length ≤ f.weight := by
  unfold operator? at h
  split at h
  next y _ =>
      split at h
      next =>
          obtain rfl : y = x := Option.some.inj h
          simp only [Tree.weight, Option.getD_some]
          omega
      next => cases h
  next => cases h

/-- What is drawn has at most so many columns and rows. -/
theorem size_le_weight [Scalar α] {site : Site α} {position : Position α} {t : Tree ε}
    {d : Fragment α} (h : Paint.Yields (p.drawAt t position site) d) :
    d.width ≤ t.weight ∧ d.height ≤ t.weight ∧ d.stem ≤ t.weight := by
  obtain ⟨u, hu, hwidth, hheight, hstem⟩ := hasSizeOf_of_yields h
  obtain ⟨hw, hh⟩ := Tree.size_le_weight hu
  have := u.stem_le_height
  omega

end Painter

end Tromp
