import Tromp.Xml.Name

/-!
# Tokens of declarations

The declarations in a document type are written in a small language of their own: names, quoted
literals, parentheses, and signs between them.  A text is cut into tokens by a fold over its
characters.  What may follow a token directly is part of the rules: a name ends only before white
space or a sign that cannot belong to it, and white space has to follow a literal.
-/

namespace Tromp.Xml.Declaration

/-- A token of a declaration. -/
inductive Token where
  /-- A name without a colon. -/
  | plain (s : String)
  /-- A name with one colon inside. -/
  | tagged (s : String)
  /-- Characters of names in any other order. -/
  | loose (s : String)
  /-- A name, and directly after it a sign that says how often it occurs. -/
  | counted (s : String)
  /-- A word after a number sign. -/
  | reserved (s : String)
  | literal (s : List Char)
  | opening
  /-- A closing parenthesis, and directly after it perhaps a sign that says how often the group
  occurs. -/
  | closing (count : Option Char)
  | comma
  | bar
  | percent
deriving DecidableEq, Repr

namespace Token

/-- The token that some characters of names are.  After the colon of a name any of them may
stand. -/
def ofWord (cs : List Char) : Token :=
  let s := String.ofList cs
  match cs.dropWhile (· != ':') with
  | [] => if isPlainName cs then plain s else loose s
  | _ :: rest =>
    if isPlainName (cs.takeWhile (· != ':')) && !rest.isEmpty && rest.all isNameChar then tagged s
    else loose s

/-- The signs that say how often something occurs. -/
def isCount (c : Char) : Bool := c == '?' || c == '*' || c == '+'

/-- What is being read; the characters that were read, latest first. -/
inductive State where
  /-- Any token may follow. -/
  | gap
  /-- White space has to follow. -/
  | spaced
  /-- After a closing parenthesis. -/
  | closed
  | word (read : List Char)
  /-- After a number sign. -/
  | reserved (read : List Char)
  | literal (mark : Char) (read : List Char)
deriving DecidableEq, Repr

/-- A text from its characters, latest first. -/
def textOf (read : List Char) : String := String.ofList read.reverse

/-- Reads a character with which a token may begin, after some tokens, latest first. -/
def begin? (done : List Token) (c : Char) : Option (State × List Token) :=
  if isSpace c then some (.gap, done)
  else if c = '"' || c = '\'' then some (.literal c [], done)
  else if c = '(' then some (.gap, .opening :: done)
  else if c = ')' then some (.closed, done)
  else if c = ',' then some (.gap, .comma :: done)
  else if c = '|' then some (.gap, .bar :: done)
  else if c = '#' then some (.reserved [], done)
  else if c = '%' then some (.spaced, .percent :: done)
  else if isNameChar c || c = ':' then some (.word [c], done)
  else none

/-- Reads one more character. -/
def step (s : State × List Token) (c : Char) : Option (State × List Token) :=
  match s with
  | (.gap, done) => begin? done c
  | (.spaced, done) => if isSpace c then some (.gap, done) else none
  | (.closed, done) =>
    if isCount c then some (.gap, .closing (some c) :: done)
    else if isSpace c || c = ')' || c = ',' || c = '|' then begin? (.closing none :: done) c
    else none
  | (.word read, done) =>
    if isNameChar c || c = ':' then some (.word (c :: read), done)
    else if isCount c then
      match ofWord read.reverse with
      | .loose _ => none
      | _ => some (.gap, .counted (textOf read) :: done)
    else if isSpace c || c = ')' || c = ',' || c = '|' then begin? (ofWord read.reverse :: done) c
    else none
  | (.reserved read, done) =>
    if isNameChar c then some (.reserved (c :: read), done)
    else if isSpace c || c = ')' || c = '|' then begin? (.reserved (textOf read) :: done) c
    else none
  | (.literal mark read, done) =>
    if c = mark then some (.spaced, .literal read.reverse :: done)
    else some (.literal mark (c :: read), done)

/-- The tokens, latest first, when the text ends in a state. -/
def finish? : State × List Token → Option (List Token)
  | (.gap, done) => some done
  | (.spaced, done) => some done
  | (.closed, done) => some (.closing none :: done)
  | (.word read, done) => some (ofWord read.reverse :: done)
  | (.reserved read, done) => some (.reserved (textOf read) :: done)
  | (.literal _ _, _) => none

/-- The tokens of a text. -/
def ofText? (cs : List Char) : Option (List Token) := do
  return (← finish? (← cs.foldlM step (.gap, []))).reverse

end Token

end Tromp.Xml.Declaration
