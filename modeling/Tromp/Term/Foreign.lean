import Tromp.Term.Tree
import Tromp.Text.Quoted

/-!
# Trees with foreign leaves

A tree handed in from outside may hold any plain value where a term should be.  `Tree.check` finds
the first such leaf, looking at the argument of an application before its function, or returns the
tree as a term.  A leaf right below an abstraction is reported together with it.
-/

namespace Tromp

/-- Where a tree stops being a term. -/
inductive Malformed (ε : Type) where
  /-- A foreign root, or a foreign operand of an application. -/
  | operand (value : ε)
  /-- A foreign body of an abstraction. -/
  | body (name : Option String) (numeral : Option Int) (value : ε)
deriving DecidableEq, Repr

namespace Malformed

variable {ε : Type}

/-- The node that is reported: the abstraction when the value is its body. -/
def node : Malformed ε → Tree ε
  | operand v => .foreign v
  | body name numeral v => .lam name numeral (.foreign v)

end Malformed

namespace Tree

variable {ε : Type}

/-- The tree as a term, or its first foreign leaf. -/
def check : Tree ε → Except (Malformed ε) Term
  | foreign v => .error (.operand v)
  | var name index free => .ok (.var name index free)
  | lam name numeral (foreign v) => .error (.body name numeral v)
  | lam name numeral body => (check body).map (.lam name numeral)
  | app f a => do
    let arg ← check a
    let func ← check f
    return .app func arg

/-- The term as a tree that could have foreign leaves. -/
def ofTerm : Term → Tree ε
  | .foreign value => value.elim
  | .var name index free => var name index free
  | .lam name numeral body => lam name numeral (ofTerm body)
  | .app f a => app (ofTerm f) (ofTerm a)

/-- The text of a tree in messages, given the text of its foreign leaves. -/
def literal (leaf : ε → String) : Tree ε → String
  | foreign v => leaf v
  | var name index free =>
    "Var(name=" ++ quotedOption name ++ ", index=" ++ numeralText (index.map Int.ofNat) ++
      ", free=" ++ flagText free ++ ")"
  | lam name numeral body =>
    "Lam(body=" ++ literal leaf body ++ ", name=" ++ quotedOption name ++ ", numeral=" ++
      numeralText numeral ++ ")"
  | app f a => "App(func=" ++ literal leaf f ++ ", arg=" ++ literal leaf a ++ ")"
where
  /-- The text of an optional integer. -/
  numeralText : Option Int → String
    | some n => toString n
    | none => quotedOption none

end Tree

end Tromp
