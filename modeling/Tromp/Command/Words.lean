import Tromp.Command.Switch
import Tromp.Text.Digit

/-!
# The words of a command line

Every word of a command line is read by itself first.  It spells a switch, with or without a value
written to it; or it stands for itself; or it is the pair of dashes after which every word stands
for itself.

A long switch may be cut short as long as no other begins alike.  A word that begins with a dash
and spells nothing stands for itself where it looks like a negative number or has a space in it, and
is taken for an unknown switch otherwise.
-/

namespace Tromp

/-- What is written to a switch. -/
inductive Attachment where
  | nothing
  /-- What follows an equals sign. -/
  | afterEquals (cs : List Char)
  /-- What follows a short spelling without one. -/
  | direct (cs : List Char)
deriving DecidableEq, Repr

/-- What a word is. -/
inductive Role where
  /-- It stands for itself. -/
  | plain
  /-- The pair of dashes. -/
  | separator
  /-- It spells a switch, with something written to it or not. -/
  | switch (s : Switch) (value : Attachment)
  /-- It looks like a switch that there is not. -/
  | unknown
deriving DecidableEq, Repr

/-- A word and what it is. -/
structure Word where
  text : String
  role : Role
deriving DecidableEq, Repr

namespace Word

/-- Whether a text looks like a negative number: a dash and digits, with at most one point before
the last of them.  A line end may follow. -/
def looksNegative : List Char → Bool
  | '-' :: cs =>
    let cs := if cs.getLast? = some '\n' then cs.dropLast else cs
    let rest := cs.dropWhile isDigit
    match rest with
    | [] => !cs.isEmpty
    | '.' :: ds => !ds.isEmpty && ds.all isDigit
    | _ => false
  | _ => false

/-- The text before the first equals sign, and what follows it. -/
def splitValue (cs : List Char) : List Char × Attachment :=
  let key := cs.takeWhile (· != '=')
  match cs.drop key.length with
  | [] => (key, .nothing)
  | _ :: value => (key, .afterEquals value)

/-- The spellings that a text may mean in part, with what it then is. -/
def matching (cs : List Char) : List (String × Role) :=
  match cs with
  | '-' :: '-' :: _ =>
    let (key, value) := splitValue cs
    (Switch.table.filter fun entry => key.isPrefixOf entry.1.toList).map fun (spelling, s) =>
      (spelling, .switch s value)
  | '-' :: c :: value =>
    match Switch.short? c with
    | some s => [(String.ofList ['-', c], .switch s (.direct value))]
    | none => []
  | _ => []

/-- What a text is that spells a switch in full, before an equals sign or alone. -/
def inFull? (cs : List Char) : Option Role :=
  let (key, value) := splitValue cs
  (Switch.spelled? (String.ofList key)).map (.switch · value)

/-- What a word is, read by itself. -/
def roleOf (text : String) : Except UsageFault Role :=
  match text.toList with
  | '-' :: c :: rest =>
    let cs := '-' :: c :: rest
    match inFull? cs with
    | some role => .ok role
    | none =>
      match matching cs with
      | [(_, role)] => .ok role
      | [] => .ok (if looksNegative cs || cs.contains ' ' then .plain else .unknown)
      | several => .error (.ambiguous text (several.map (·.1)))
  | _ => .ok .plain

/-- What the words of a command line are. -/
def ofTexts : List String → Except UsageFault (List Word)
  | [] => .ok []
  | text :: rest =>
    if text = "--" then .ok (⟨text, .separator⟩ :: rest.map (⟨·, .plain⟩))
    else do
      let role ← roleOf text
      return ⟨text, role⟩ :: (← ofTexts rest)

end Word

end Tromp
