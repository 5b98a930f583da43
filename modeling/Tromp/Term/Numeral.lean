import Tromp.Term.Tree
import Tromp.Text.Digit

/-!
# Church numerals

The numeral of `n` is `λf.λx.f (f (… (f x)))` with `n` applications of `f`.  Expansion replaces
every variable whose name is a decimal literal by the numeral of that literal, tagged with it.  A
literal with too many digits is not read.
-/

namespace Tromp

namespace Term

/-- The body of the numeral of a natural number: that many applications of the outer variable. -/
def iterate : Nat → Term
  | 0 => .var (some "x") (some 0) false
  | n + 1 => .app (.var (some "f") (some 1) false) (iterate n)

/-- The Church numeral of a natural number, tagged with it. -/
def church (n : Nat) : Term := .lam (some "f") (some n) (.lam (some "x") none (iterate n))

/-- Replaces the variables named by a decimal literal by numerals, however long the literals are. -/
def expand : Term → Term
  | .var name index free =>
    match name with
    | some s => if isDecimal s then church (digitsValue s.toList) else .var name index free
    | none => .var name index free
  | .lam name numeral body => .lam name numeral (expand body)
  | .app f a => .app (expand f) (expand a)

/-- Forgets which literals the abstractions stand for. -/
def untag : Term → Term
  | .var name index free => .var name index free
  | .lam name _ body => .lam name none (untag body)
  | .app f a => .app (untag f) (untag a)

end Term

/-- Why literals are not expanded in a tree with foreign leaves in `ε`. -/
inductive ExpansionFault (ε : Type) where
  /-- There is a value that is no term. -/
  | foreign (value : ε)
  /-- A literal has more digits than are read as one number. -/
  | tooLong (digits : Nat)
deriving DecidableEq, Repr

/-- The text of the fault, given the text of foreign leaves. -/
def ExpansionFault.message {ε : Type} (leaf : ε → String) : ExpansionFault ε → String
  | foreign value => "not a term: " ++ leaf value
  | tooLong digits =>
    "Exceeds the limit (" ++ toString digitLimit ++ " digits) for integer string conversion: " ++
      "value has " ++ toString digits ++ " digits; use sys.set_int_max_str_digits() to increase " ++
      "the limit"

/-- Expands the literals of a tree.  The argument of an application comes before its function, and
the first fault on the way is reported. -/
def Tree.expand? {ε : Type} : Tree ε → Except (ExpansionFault ε) Term
  | .foreign value => .error (.foreign value)
  | .var name index free =>
    match name with
    | some s =>
      if isDecimal s then
        if digitLimit < s.length then .error (.tooLong s.length)
        else .ok (Term.church (digitsValue s.toList))
      else .ok (.var name index free)
    | none => .ok (.var name index free)
  | .lam name numeral body => (expand? body).map (.lam name numeral)
  | .app f a => do
    let arg ← expand? a
    let func ← expand? f
    return .app func arg

/-- What makes an integer unfit as an index or as a numeral. -/
inductive NegativeInteger where
  /-- A variable cannot have a negative index. -/
  | index (i : Int)
  /-- There is no numeral of a negative integer. -/
  | numeral (n : Int)
deriving DecidableEq, Repr

namespace NegativeInteger

/-- The text of the error. -/
def message : NegativeInteger → String
  | index i => "Variable index must be non-negative, got " ++ toString i
  | numeral n => "Church numerals are natural numbers, got " ++ toString n

end NegativeInteger

/-- The numeral of an integer, which must not be negative. -/
def Term.church? (n : Int) : Except NegativeInteger Term :=
  if n < 0 then .error (.numeral n) else .ok (church n.toNat)

/-- The variable with an index given as an integer, which must not be negative. -/
def Tree.var? {ε : Type} (name : Option String) (index : Option Int) (free : Bool) :
    Except NegativeInteger (Tree ε) :=
  match index with
  | none => .ok (.var name none free)
  | some i => if i < 0 then .error (.index i) else .ok (.var name (some i.toNat) free)

end Tromp
