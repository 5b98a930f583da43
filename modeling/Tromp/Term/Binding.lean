import Tromp.Term.Tree

/-!
# Binding

Resolution gives every variable its De Bruijn index.  On the way down an *environment* maps each
name in scope to the depth of the abstraction that binds it, the number of abstractions above that
one.  An inner abstraction over the same name hides the outer one; an abstraction without a name
binds nothing but counts.  A variable at depth `n` that is bound at depth `d` has index
`n - d - 1`.  A variable bound nowhere gets index zero and is marked free.
-/

namespace Tromp

/-- The names in scope, innermost first, with the depths of the abstractions that bind them. -/
abbrev Environment := List (String × Nat)

namespace Environment

/-- The depth at which an optional name is bound. -/
def depth? (env : Environment) (name : Option String) : Option Nat :=
  name.bind fun x => env.lookup x

/-- The environment below an abstraction at a depth. -/
def bind (env : Environment) (name : Option String) (depth : Nat) : Environment :=
  match name with
  | some x => (x, depth) :: env
  | none => env

end Environment

namespace Term

/-- Resolves a term that stands at a depth, in the environment there. -/
def resolveAt (depth : Nat) (env : Environment) : Term → Term
  | .var name _ _ =>
    match env.depth? name with
    | some d => .var name (some (depth - d - 1)) false
    | none => .var name (some 0) true
  | .lam name numeral body => .lam name numeral (resolveAt (depth + 1) (env.bind name depth) body)
  | .app f a => .app (resolveAt depth env f) (resolveAt depth env a)

/-- The term with the same names in which every variable has its index. -/
def resolve (t : Term) : Term := resolveAt 0 [] t

end Term

end Tromp
