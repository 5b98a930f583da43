/-!
# Terms

A term of the lambda calculus is a variable, an abstraction or an application.  Names are those of
the source text; a variable may also carry its De Bruijn index, the number of abstractions between
it and the one that binds it, and a mark that nothing binds it.  An abstraction may carry the
integer literal that it stands for.

Trees may be handed in that have something foreign at a leaf, where a term should be.  `Tree ε` is
the type of trees with foreign leaves in `ε`, and a *term* is a tree that can have none.
-/

namespace Tromp

/-- Term trees with foreign leaves in `ε`. -/
inductive Tree (ε : Type) where
  /-- A value that is no term. -/
  | foreign (value : ε)
  /-- An occurrence of a variable. -/
  | var (name : Option String) (index : Option Nat) (free : Bool)
  /-- An abstraction of its body over a variable. -/
  | lam (name : Option String) (numeral : Option Int) (body : Tree ε)
  /-- The application of a function to an argument. -/
  | app (func arg : Tree ε)
deriving DecidableEq, Repr

/-- A term is a tree without foreign leaves. -/
abbrev Term := Tree Empty

instance {ε : Type} : Inhabited (Tree ε) := ⟨.var none none false⟩

namespace Tree

variable {ε : Type}

/-- Whether a tree is an application. -/
def isApp : Tree ε → Bool
  | app .. => true
  | _ => false

/-- Splits `f₁ (f₂ (… (fₙ x)))` into the functions and the last argument. -/
def spine : Tree ε → List (Tree ε) × Tree ε
  | app f a => (f :: (spine a).1, (spine a).2)
  | t => ([], t)

/-- The number of times `f (f (… (f x)))` applies the variable of index one to the variable of
index zero, if that is what a tree does. -/
def iterations? : Tree ε → Option Nat
  | var _ (some 0) false => some 0
  | app (var _ (some 1) false) rest => (iterations? rest).map (· + 1)
  | _ => none

/-- The natural number whose Church numeral a tree is, names aside. -/
def churchValue? : Tree ε → Option Nat
  | lam _ _ (lam _ _ body) => iterations? body
  | _ => none

/-- The truth value whose selector a tree is: the first of two arguments is true, the second
false. -/
def booleanValue? : Tree ε → Option Bool
  | lam _ _ (lam _ _ (var _ (some 1) false)) => some true
  | lam _ _ (lam _ _ (var _ (some 0) false)) => some false
  | _ => none

end Tree

namespace Term

/-- Induction on terms, which have no foreign leaves. -/
@[elab_as_elim]
theorem induction {motive : Term → Prop}
    (var : ∀ name index free, motive (.var name index free))
    (lam : ∀ name numeral body, motive body → motive (.lam name numeral body))
    (app : ∀ func arg, motive func → motive arg → motive (.app func arg)) (t : Term) :
    motive t := by
  induction t with
  | foreign e => exact e.elim
  | var name index free => exact var name index free
  | lam name numeral body ih => exact lam name numeral body ih
  | app func arg ihf iha => exact app func arg ihf iha

/-- The number of variables and abstractions of a term. -/
def size : Term → Nat
  | .var .. => 1
  | .lam _ _ body => 1 + size body
  | .app f a => size f + size a

/-- The names of the free variables, one for each occurrence, from left to right. -/
def freeVars : Term → List String
  | .var name _ free => if free then name.toList else []
  | .lam _ _ body => freeVars body
  | .app f a => freeVars f ++ freeVars a

/-- Whether every variable carries an index. -/
def isResolved : Term → Bool
  | .var _ index _ => index.isSome
  | .lam _ _ body => isResolved body
  | .app f a => isResolved f && isResolved a

/-- Whether, under `depth` abstractions, every variable carries an index, and one that is not free
an index of an abstraction around it. -/
def isValid (depth : Int) : Term → Bool
  | .var _ none _ => false
  | .var _ (some i) free => free || (i : Int) < depth
  | .lam _ _ body => isValid (depth + 1) body
  | .app f a => isValid depth f && isValid depth a

/-- A term whose indices are valid has indices. -/
theorem isResolved_of_isValid {t : Term} {depth : Int} (h : t.isValid depth = true) :
    t.isResolved = true := by
  induction t using Term.induction generalizing depth with
  | var name index free =>
      cases index with
      | none => cases h
      | some i => rfl
  | lam name numeral body ih => exact ih h
  | app f a ihf iha =>
      obtain ⟨hf, ha⟩ := Bool.and_eq_true_iff.mp h
      rw [isResolved, ihf hf, iha ha, Bool.and_self]

/-- The width of the diagram of a term: its columns, one for each variable. -/
def width : Term → Nat
  | .var .. => 1
  | .lam _ _ body => width body
  | .app f a => width f + width a

/-- The height of the diagram of a term: its rows, one for each abstraction and each application
on the way down. -/
def height : Term → Nat
  | .var .. => 0
  | .lam _ _ body => height body + 1
  | .app f a => max (height f) (height a) + 1

end Term

end Tromp
