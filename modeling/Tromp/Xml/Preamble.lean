import Tromp.Xml.Name

/-!
# Preambles

A document may begin with an instruction that states its version, and perhaps its encoding and
whether it stands alone, in this order.  The statements have the form of attributes, with values of
a few characters only.
-/

namespace Tromp.Xml.Preamble

/-- What is being read of a preamble; the characters that were read, latest first. -/
inductive State where
  /-- Between statements; whether white space came last. -/
  | gap (spaced : Bool)
  | name (read : List Char)
  /-- Before the equals sign. -/
  | equals (name : String)
  /-- Before the value. -/
  | quote (name : String)
  | value (name : String) (mark : Char) (read : List Char)
deriving DecidableEq, Repr

/-- The characters of values. -/
def isValueChar (c : Char) : Bool := c.isAlphanum || c == '.' || c == '-' || c == '_'

/-- Reads one more character, after some statements, latest first. -/
def step (s : State × List (String × String)) (c : Char) :
    Option (State × List (String × String)) :=
  match s with
  | (.gap spaced, done) =>
    if isSpace c then some (.gap true, done)
    else if spaced && c != '=' then some (.name [c], done)
    else none
  | (.name read, done) =>
    if c = '=' then some (.quote (String.ofList read.reverse), done)
    else if isSpace c then some (.equals (String.ofList read.reverse), done)
    else some (.name (c :: read), done)
  | (.equals name, done) =>
    if isSpace c then some (.equals name, done)
    else if c = '=' then some (.quote name, done)
    else none
  | (.quote name, done) =>
    if isSpace c then some (.quote name, done)
    else if c = '"' || c = '\'' then some (.value name c [], done)
    else none
  | (.value name mark read, done) =>
    if c = mark then some (.gap false, (name, String.ofList read.reverse) :: done)
    else if isValueChar c then some (.value name mark (c :: read), done)
    else none

/-- The statements of a preamble. -/
def statements? (content : List Char) : Option (List (String × String)) :=
  match content.foldlM step (.gap false, []) with
  | some (.gap _, done) => some done.reverse
  | _ => none

/-- Whether a document with some statements stands alone; none when they are in disorder. -/
def ofStatements? : List (String × String) → Option Bool
  | ("version", _) :: rest => encoding rest
  | _ => none
where
  /-- After the version. -/
  encoding : List (String × String) → Option Bool
    | ("encoding", e) :: rest => if e.toList.head?.any Char.isAlpha then standalone rest else none
    | rest => standalone rest
  /-- After the encoding. -/
  standalone : List (String × String) → Option Bool
    | [] => some false
    | [("standalone", "yes")] => some true
    | [("standalone", "no")] => some false
    | _ => none

/-- Whether a document with a preamble stands alone; none when it is no preamble. -/
def standsAlone? (content : List Char) : Option Bool := do ofStatements? (← statements? content)

end Tromp.Xml.Preamble
