import Tromp.Term.Foreign

/-!
# Why a tree cannot be drawn

Drawing refuses trees that are no terms and terms whose variables do not name an abstraction around
them.  A whole term is checked before anything of it is drawn; the painter checks once more at every
leaf, because it may also be asked for a part of a term.
-/

namespace Tromp

/-- The reasons for which a tree with foreign leaves in `ε` is not drawn. -/
inductive StructuralFault (ε : Type) where
  /-- A node that is no term, or has something below it that is none. -/
  | malformed (node : Tree ε)
  /-- A term with variables that carry no index. -/
  | unresolved
  /-- A term with indices that no abstraction accounts for. -/
  | pastLambdas
  /-- A variable without an index. -/
  | unresolvedVariable (name : Option String)
  /-- A variable with an index that none of the abstractions around it accounts for. -/
  | variablePastLambdas (name : Option String) (index depth : Nat)
deriving Repr

namespace StructuralFault

variable {ε : Type}

/-- The text of a fault, given the text of foreign leaves. -/
def message (leaf : ε → String) : StructuralFault ε → String
  | malformed node => "malformed term node: " ++ node.literal leaf
  | unresolved => "term has unresolved variables, run resolve_bindings first"
  | pastLambdas => "term has De Bruijn indices pointing past its lambdas"
  | unresolvedVariable name => "variable " ++ quotedOption name ++ " has not been resolved"
  | variablePastLambdas name index depth =>
    "variable " ++ quotedOption name ++ " has index " ++ toString index ++ " under " ++
      toString depth ++ " lambdas"

end StructuralFault

end Tromp
