import Tromp.Arithmetic.Number
import Tromp.Arithmetic.Reading
import Tromp.Text.Quoted
import Tromp.Xml.Element

/-!
# Reading lines back

Only the lines of a document are read back, so any document made of lines can be shown, not just the
pictures of this library.  A line stands where its own coordinates and the translations of all
elements around it put it.  Reading is best effort: a line that cannot be read is skipped and a
transform that cannot be read does nothing, each with a warning, and lines that are not below it are
none the worse.
-/

namespace Tromp

/-- The end points of a line. -/
structure Ends (α : Type) where
  x1 : α
  y1 : α
  x2 : α
  y2 : α
deriving DecidableEq, Repr

/-- The text of the fault that a text writes no number. -/
def NoNumber.message (n : NoNumber) : String :=
  "could not convert string to float: " ++ quoted n.text

namespace Svg

open Xml

/-- The exponent that a text begins with, where one is written in full. -/
def exponentAt : List Char → List Char
  | c :: more =>
    if c = 'e' || c = 'E' then
      let (sign, ds) := match more with
        | '+' :: ds => (['+'], ds)
        | '-' :: ds => (['-'], ds)
        | ds => ([], ds)
      let ds := ds.takeWhile isDigit
      if ds.isEmpty then [] else c :: sign ++ ds
    else []
  | [] => []

/-- The longest beginning of a text that is a decimal: a sign, digits with at most one point, and an
exponent. -/
def leadingDecimal? (cs : List Char) : Option (List Char) :=
  let (sign, cs) := cs.span fun c => c == '+' || c == '-'
  let (whole, rest) := cs.span isDigit
  let (fraction, rest) := match rest with
    | '.' :: more =>
      let (ds, rest') := more.span isDigit
      if whole.isEmpty && ds.isEmpty then ([], rest) else ('.' :: ds, rest')
    | _ => ([], rest)
  if 1 < sign.length || (whole.isEmpty && fraction.isEmpty) then none
  else some (sign ++ whole ++ fraction ++ exponentAt rest)

/-- The length that an attribute gives: the decimal it begins with.  Percentages, lengths that are
not positive or not finite, and everything that does not begin with a decimal give the default. -/
def length (value : Option String) (default : Number) : Number :=
  let given := do
    let text ← value
    if text.toList.contains '%' then none
    let x ← readDouble? (String.ofList (← leadingDecimal? (stripBlanks text.toList)))
    if 0.0 < x && x.isFinite then some (Number.real x) else none
  given.getD default

/-- The characters of a number in a transform. -/
def isOperandChar (c : Char) : Bool := c != ',' && c != ')' && !isBlank c

/-- A translation at the beginning of a text, its operands and what follows it. -/
def translationAt? (cs : List Char) : Option ((List Char × Option (List Char)) × List Char) := do
  let word := "translate(".toList
  if !word.isPrefixOf cs then none
  let (x, rest) := ((cs.drop word.length).dropWhile isBlank).span isOperandChar
  let (gap, more) := rest.span fun c => c == ',' || isBlank c
  let (y, after) := more.span isOperandChar
  let (second, after) := if gap.isEmpty || y.isEmpty then (none, rest) else (some y, after)
  match x, after.dropWhile isBlank with
  | _ :: _, ')' :: after => some ((x, second), after)
  | _, _ => none

/-- The operands of all translations in a text from left to right, after `skip` characters that
belong to the one before. -/
def translationsIn (skip : Nat) : List Char → List (List Char × Option (List Char))
  | [] => []
  | c :: cs =>
    match skip with
    | n + 1 => translationsIn n cs
    | 0 =>
      match translationAt? (c :: cs) with
      | some (operands, after) => operands :: translationsIn (cs.length - after.length) cs
      | none => translationsIn 0 cs

/-- The sum of the translations in a transform.  Other transforms do nothing. -/
def translation (transform : Option String) : Except NoNumber (Number × Number) :=
  let operand := fun cs => (parseDouble (String.ofList cs)).map Number.real
  (translationsIn 0 (transform.getD "").toList).foldlM (fun (dx, dy) (x, y) => do
    let dx := dx + (← operand x)
    let dy := dy + (← match y with
      | some y => operand y
      | none => .ok (Number.real 0.0))
    return (dx, dy)) (Number.real 0.0, Number.real 0.0)

/-- What is met on the way through a document. -/
inductive Visit where
  /-- A transform that cannot be read. -/
  | malformed (transform : String)
  /-- A line, and the translation that holds there. -/
  | line (e : Element) (dx dy : Number)

/-- The translation that holds in an element, and the transform if it cannot be read. -/
def translationIn (e : Element) (dx dy : Number) : (Number × Number) × List Visit :=
  match translation (e.attribute? "transform") with
  | .ok (tx, ty) => ((dx + tx, dy + ty), [])
  | .error _ =>
    ((dx + .real 0.0, dy + .real 0.0), [.malformed ((e.attribute? "transform").getD "")])

mutual

/-- What is met in an element that stands in a translation, in the order of the document. -/
def visits (dx dy : Number) : Element → List Visit
  | .node name attributes text children =>
    let e : Element := .node name attributes text children
    let ((dx, dy), found) := translationIn e dx dy
    found ++ (if e.localName = "line" then [.line e dx dy] else []) ++ visitsOf dx dy children

/-- What is met in some elements, one after another. -/
def visitsOf (dx dy : Number) : List Element → List Visit
  | [] => []
  | e :: rest => visits dx dy e ++ visitsOf dx dy rest

end

/-- Why a line cannot be read. -/
inductive LineFault where
  | missing (key : String)
  | noNumber (n : NoNumber)
  | notFinite

/-- What is reported while a document is read. -/
inductive Warning where
  | malformedTransform (transform : String)
  /-- A line, counted from zero in the order of the document, is skipped. -/
  | skippedLine (index : Nat) (fault : LineFault)
  /-- The document breaks the rules for documents. -/
  | unreadable

namespace Warning

/-- The text of a warning. -/
def message : Warning → String
  | malformedTransform t => "ignoring malformed transform " ++ quoted t
  | skippedLine i fault => "skipping line #" ++ toString i ++ ": " ++
    match fault with
    | .missing key => "bad coordinate " ++ quoted key
    | .noNumber n => "bad coordinate " ++ n.message
    | .notFinite => "non finite coordinate"
  | unreadable => "cannot read the vector document"

end Warning

/-- A coordinate of a line. -/
def coordinateOf (e : Element) (key : String) : Except LineFault Number :=
  match e.attribute? key with
  | none => .error (.missing key)
  | some s => ((parseDouble s).map Number.real).mapError .noNumber

/-- The end points of a line that stands in a translation. -/
def endsOf (e : Element) (dx dy : Number) : Except LineFault (Ends Number) := do
  let x1 ← coordinateOf e "x1"
  let y1 ← coordinateOf e "y1"
  let x2 ← coordinateOf e "x2"
  let y2 ← coordinateOf e "y2"
  let ends : Ends Number := ⟨x1 + dx, y1 + dy, x2 + dx, y2 + dy⟩
  if [ends.x1, ends.y1, ends.x2, ends.y2].all Number.isFinite then .ok ends else .error .notFinite

/-- The outcome of every visit, with lines counted from `index`. -/
def outcomes (index : Nat) : List Visit → List (Except Warning (Ends Number))
  | [] => []
  | .malformed t :: rest => .error (.malformedTransform t) :: outcomes index rest
  | .line e dx dy :: rest =>
    (endsOf e dx dy).mapError (.skippedLine index) :: outcomes (index + 1) rest

/-- The lines of a document and the warnings, both in order. -/
def readLines (root : Element) : List (Ends Number) × List Warning :=
  let results := outcomes 0 (visits (.real 0.0) (.real 0.0) root)
  (results.filterMap fun
    | .ok ends => some ends
    | .error _ => none,
   results.filterMap fun
    | .ok _ => none
    | .error w => some w)

end Svg

end Tromp
