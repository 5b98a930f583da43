import Tromp.Term.Numeral

/-!
# Names and tags as annotations

What a term is, its shape and its indices, does not depend on how its variables and abstractions are
named and which of its abstractions are tagged as literals.  Measuring a term, checking its indices
and recognizing numerals and truth values look at the term itself alone, so they give the same for
every way of writing names and tags anew.
-/

namespace Tromp.Term

/-- The term with its names and its tags written anew. -/
def relabel (onName : Option String → Option String) (onTag : Option Int → Option Int) :
    Term → Term
  | .var name index free => .var (onName name) index free
  | .lam name numeral body => .lam (onName name) (onTag numeral) (relabel onName onTag body)
  | .app f a => .app (relabel onName onTag f) (relabel onName onTag a)

/-- The term less the names of its variables and the tags of its numerals. -/
def nameless : Term → Term
  | .var _ index free => .var none index free
  | .lam _ _ body => .lam none none (nameless body)
  | .app f a => .app (nameless f) (nameless a)

theorem untag_eq_relabel (t : Term) : t.untag = t.relabel id fun _ => none := by
  induction t using Term.induction with
  | var name index free => rfl
  | lam name numeral body ih => rw [untag, ih]; rfl
  | app f a ihf iha => rw [untag, ihf, iha]; rfl

theorem nameless_eq_relabel (t : Term) :
    t.nameless = t.relabel (fun _ => none) fun _ => none := by
  induction t using Term.induction with
  | var name index free => rfl
  | lam name numeral body ih => rw [nameless, ih]; rfl
  | app f a ihf iha => rw [nameless, ihf, iha]; rfl

variable (onName : Option String → Option String) (onTag : Option Int → Option Int)

theorem width_relabel (t : Term) : (t.relabel onName onTag).width = t.width := by
  induction t using Term.induction with
  | var name index free => rfl
  | lam name numeral body ih => exact ih
  | app f a ihf iha => rw [relabel, width, width, ihf, iha]

theorem height_relabel (t : Term) : (t.relabel onName onTag).height = t.height := by
  induction t using Term.induction with
  | var name index free => rfl
  | lam name numeral body ih => rw [relabel, height, height, ih]
  | app f a ihf iha => rw [relabel, height, height, ihf, iha]

theorem size_relabel (t : Term) : (t.relabel onName onTag).size = t.size := by
  induction t using Term.induction with
  | var name index free => rfl
  | lam name numeral body ih => rw [relabel, size, size, ih]
  | app f a ihf iha => rw [relabel, size, size, ihf, iha]

theorem isValid_relabel (t : Term) (depth : Int) :
    (t.relabel onName onTag).isValid depth = t.isValid depth := by
  induction t using Term.induction generalizing depth with
  | var name index free => cases index <;> rfl
  | lam name numeral body ih => exact ih (depth + 1)
  | app f a ihf iha => rw [relabel, isValid, isValid, ihf, iha]

theorem iterations?_relabel (t : Term) :
    Tree.iterations? (t.relabel onName onTag) = Tree.iterations? t := by
  induction t using Term.induction with
  | var name index free =>
      rcases index with _ | _ | i
      · rfl
      · cases free <;> rfl
      · rfl
  | lam name numeral body ih => rfl
  | app f a ihf iha =>
      cases f using Term.induction with
      | var name index free =>
          rcases index with _ | _ | _ | i
          · rfl
          · rfl
          · cases free with
            | true => rfl
            | false => exact congrArg (Option.map (· + 1)) iha
          · rfl
      | lam name numeral body => rfl
      | app g b => rfl

/-- A numeral is recognized whatever its names and its tags are. -/
theorem churchValue?_relabel (t : Term) :
    Tree.churchValue? (t.relabel onName onTag) = Tree.churchValue? t := by
  cases t using Term.induction with
  | var name index free => rfl
  | app f a => rfl
  | lam name numeral body =>
      cases body using Term.induction with
      | var name' index free => rfl
      | app f a => rfl
      | lam name' numeral' inner => exact iterations?_relabel onName onTag inner

/-- A truth value is recognized whatever its names and its tags are. -/
theorem booleanValue?_relabel (t : Term) :
    Tree.booleanValue? (t.relabel onName onTag) = Tree.booleanValue? t := by
  cases t using Term.induction with
  | var name index free => rfl
  | app f a => rfl
  | lam name numeral body =>
      cases body using Term.induction with
      | var name' index free => rfl
      | app f a => rfl
      | lam name' numeral' inner =>
          cases inner using Term.induction with
          | lam => rfl
          | app => rfl
          | var name'' index free =>
              rcases index with _ | _ | _ | i
              · rfl
              · cases free <;> rfl
              · cases free <;> rfl
              · rfl

/-- The number and the truth value of a term hang together: a number that is not zero is no truth
value. -/
theorem booleanValue?_eq_none {t : Term} {n : Nat} (h : Tree.churchValue? t = some (n + 1)) :
    Tree.booleanValue? t = none := by
  cases t using Term.induction with
  | var name index free => cases h
  | app f a => cases h
  | lam name numeral body =>
      cases body using Term.induction with
      | var name' index free => cases h
      | app f a => cases h
      | lam name' numeral' inner =>
          cases inner using Term.induction with
          | lam => rfl
          | app => rfl
          | var name'' index free =>
              rcases index with _ | _ | i
              · cases h
              · cases free <;> cases h
              · cases free <;> cases h

end Tromp.Term
