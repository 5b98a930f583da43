import Tromp.Arithmetic.Places
import Tromp.Text.Quoted

/-!
# Plain values

Options, and the leaves of trees that are no terms, are plain values: nothing, truth values,
numbers, texts, lists and records.  Messages show them as literals.
-/

namespace Tromp

/-- A plain value. -/
inductive Value (α : Type) where
  | nothing
  | flag (b : Bool)
  | number (x : α)
  | text (s : String)
  | list (items : List (Value α))
  | record (fields : List (String × Value α))
deriving Inhabited

namespace Value

mutual

/-- The text of a value in messages. -/
def literal : Value Number → String
  | nothing => quotedOption none
  | flag b => flagText b
  | number x => x.text
  | text s => quoted s
  | list items => "[" ++ ", ".intercalate (literals items) ++ "]"
  | record fields => "\x7b" ++ ", ".intercalate (entries fields) ++ "\x7d"

/-- The texts of the items of a list. -/
def literals : List (Value Number) → List String
  | [] => []
  | v :: rest => v.literal :: literals rest

/-- The texts of the fields of a record. -/
def entries : List (String × Value Number) → List String
  | [] => []
  | (key, v) :: rest => (quoted key ++ ": " ++ v.literal) :: entries rest

end

/-- The word for the kind of a value in messages. -/
def kindWord : Value Number → String
  | nothing => "NoneType"
  | flag _ => "bool"
  | number (.whole _) => "int"
  | number (.real _) => "float"
  | text _ => "str"
  | list _ => "list"
  | record _ => "dict"

variable {α : Type}

/-- The text that a value is. -/
def text? : Value α → Option String
  | text s => some s
  | _ => none

/-- The parts of a value that has parts: the items of a list, the characters of a text, the keys of
a record. -/
def parts? : Value α → Option (List (Value α))
  | list items => some items
  | text s => some (s.toList.map fun c => text c.toString)
  | record fields => some (fields.map fun f => text f.1)
  | _ => none

variable [Scalar α]

/-- The number that a value counts as: a flag counts as one or as zero. -/
def number? : Value α → Option α
  | number x => some x
  | flag b => some (Scalar.ofNat b.toNat)
  | _ => none

/-- Whether a value says yes where a flag belongs: it does unless it is zero or empty. -/
def isYes : Value α → Bool
  | nothing => false
  | flag b => b
  | number x => !Scalar.isZero x
  | text s => !s.isEmpty
  | list items => !items.isEmpty
  | record fields => !fields.isEmpty

end Value

end Tromp
