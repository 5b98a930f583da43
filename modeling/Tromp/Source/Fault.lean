import Tromp.Source.Token
import Tromp.Text.Quoted
import Tromp.Text.Slice

/-!
# Syntax faults

A fault says what was wrong and which token was found instead.  Its diagnosis shows the source
with the token marked in the row below it.
-/

namespace Tromp

/-- What is wrong with a source text. -/
inductive Complaint where
  | expectedName
  | expectedDot
  | expectedClosing
  | expectedAtom
  | trailingToken
  /-- A complaint in the caller's own words. -/
  | custom (text : String)
deriving DecidableEq, Repr

/-- The words of a complaint. -/
def Complaint.text : Complaint → String
  | expectedName => "Expected variable after lambda"
  | expectedDot => "Expected dot after variable in lambda abstraction"
  | expectedClosing => "Expected closing parenthesis"
  | expectedAtom => "Expected variable or parenthesized expression"
  | trailingToken => "Unexpected token after complete expression"
  | custom text => text

/-- A fault in a source text: a complaint and the offending token, given by the name of its kind,
its text and its position. -/
structure SyntaxFault where
  complaint : Complaint
  kindName : String
  text : String
  position : Int
  source : Option String
deriving DecidableEq, Repr

namespace SyntaxFault

/-- The fault of finding a token in a source. -/
def atToken (complaint : Complaint) (token : Token) (source : String) : SyntaxFault :=
  ⟨complaint, token.kind.name, token.text, token.position, some source⟩

/-- The message of a fault. -/
def message (f : SyntaxFault) : String :=
  let found := if f.text.isEmpty then f.kindName else f.kindName ++ " " ++ quoted f.text
  f.complaint.text ++ ", found " ++ found ++ " at position " ++ toString f.position

/-- Surrounds a text by the codes for bold red. -/
def highlight (text : String) : String := "\x1b[1m\x1b[31m" ++ text ++ "\x1b[0m"

/-- The source with the offending token marked below it, the token and the marks painted.  A token
that reaches past the end of the source is cut there, and at least one column is marked.  A
position before the source counts from its far end. -/
def diagnosisWith (paint : String → String) (f : SyntaxFault) : String :=
  match f.source with
  | none => ""
  | some source =>
    let cs := source.toList
    let start := min f.position cs.length
    let stop := min (max (start + f.text.length) (start + 1)) (cs.length + 1)
    let marks := '^' :: List.replicate (stop - start - 1).toNat '~'
    "  " ++ String.ofList (slice 0 start cs) ++ paint (String.ofList (slice start stop cs)) ++
      String.ofList (slice stop cs.length cs) ++ "\n  " ++
      String.ofList (List.replicate start.toNat ' ') ++ paint (String.ofList marks)

/-- The diagnosis as plain text. -/
def diagnosis (f : SyntaxFault) : String := f.diagnosisWith id

/-- The diagnosis in colour. -/
def colouredDiagnosis (f : SyntaxFault) : String := f.diagnosisWith highlight

end SyntaxFault

end Tromp
