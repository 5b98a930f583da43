import Tromp.Xml.Name

/-!
# Markup

A document is read character by character by a machine that cuts it into markup: tags, runs of
character data, literal sections, comments, instructions and the document type.  The machine knows
what it is inside of and what it has read of it so far, so reading a document is a fold over its
characters, and reading one text after another is reading them together.  A line end of any kind
counts as one line feed.
-/

namespace Tromp.Xml

/-- A part of a document type. -/
inductive TypePart where
  /-- What stands between the brackets of a declaration. -/
  | declaration (text : List Char)
  /-- A reference to declarations elsewhere. -/
  | reference (name : List Char)
deriving DecidableEq, Repr

/-- Whether a part refers to declarations elsewhere. -/
def TypePart.isReference : TypePart → Bool
  | declaration _ => false
  | reference _ => true

/-- A piece of a document. -/
inductive Markup where
  /-- Characters outside markup, references unread. -/
  | text (raw : List Char)
  /-- The content of a literal section. -/
  | literal (content : List Char)
  /-- A start tag with its attributes, references unread, and whether it closes itself. -/
  | startTag (name : List Char) (attributes : List (List Char × List Char)) (closed : Bool)
  | endTag (name : List Char)
  | comment
  | instruction (target content : List Char)
  /-- The document type: what stands before its brackets, and the parts inside them. -/
  | doctype (head : List Char) (parts : List TypePart)
deriving DecidableEq, Repr

/-- A start tag that is being read: its name, and its attributes, latest first. -/
structure OpenTag where
  name : List Char
  attributes : List (List Char × List Char)

/-- The markup of a tag. -/
def OpenTag.markup (t : OpenTag) (closed : Bool) : Markup :=
  .startTag t.name t.attributes.reverse closed

/-- A document type that is being read: its head, and its parts, latest first. -/
structure OpenType where
  head : List Char
  parts : List TypePart

/-- The markup of a document type. -/
def OpenType.markup (d : OpenType) : Markup := .doctype d.head d.parts.reverse

/-- The document type with one more part. -/
def OpenType.add (d : OpenType) (part : TypePart) : OpenType := { d with parts := part :: d.parts }

/-- Where a comment or an instruction stands. -/
inductive Place where
  | outside
  /-- Inside the brackets of a document type. -/
  | inside (d : OpenType)

/-- What the machine is inside of.  Characters that were read are kept latest first. -/
inductive Mode where
  | text (read : List Char)
  /-- After `<`. -/
  | less
  | startName (read : List Char)
  /-- Between the attributes of a tag; whether white space came last. -/
  | tag (t : OpenTag) (spaced : Bool)
  | key (t : OpenTag) (read : List Char)
  /-- Before the equals sign of an attribute. -/
  | equals (t : OpenTag) (name : List Char)
  /-- Before the value of an attribute. -/
  | quote (t : OpenTag) (name : List Char)
  | value (t : OpenTag) (name : List Char) (mark : Char) (read : List Char)
  /-- After the slash of a tag that closes itself. -/
  | closing (t : OpenTag)
  | endName (read : List Char)
  /-- After the name of an end tag. -/
  | endSpace (name : List Char)
  /-- After `<!`. -/
  | bang (place : Place) (read : List Char)
  /-- In a comment; the number of dashes that came last. -/
  | comment (place : Place) (dashes : Nat)
  | literal (read : List Char)
  | target (place : Place) (read : List Char)
  | instruction (place : Place) (target read : List Char)
  /-- Before the brackets of a document type, perhaps inside a quoted literal. -/
  | doctype (read : List Char) (mark : Option Char)
  /-- Between the declarations of a document type. -/
  | subset (d : OpenType)
  | subsetLess (d : OpenType)
  /-- In a reference to declarations elsewhere. -/
  | parameter (d : OpenType) (read : List Char)
  /-- In a declaration, perhaps inside a quoted literal. -/
  | declaration (d : OpenType) (read : List Char) (mark : Option Char)
  /-- After the brackets of a document type. -/
  | doctypeEnd (d : OpenType)

/-- The mode after a comment or an instruction. -/
def Place.resume : Place → Mode
  | outside => .text []
  | inside d => .subset d

/-- The markup of a comment or an instruction; inside a document type it is left out. -/
def Place.markup (m : Markup) : Place → List Markup
  | outside => [m]
  | inside _ => []

/-- Whether an instruction may have a target.  Only the declaration of the document itself is named
`xml`, in small letters, and it stands outside. -/
def Place.allows (place : Place) (target : List Char) : Bool :=
  isPlainName target &&
    (target.map Char.toLower != "xml".toList ||
      match place with
      | outside => target == "xml".toList
      | inside _ => false)

/-- Follows quoted literals: the mark one is inside of after a character. -/
def markAfter (mark : Option Char) (c : Char) : Option Char :=
  match mark with
  | some m => if c = m then none else some m
  | none => if c = '"' || c = '\'' then some c else none

namespace Mode

/-- Goes on without completing markup. -/
def stay (m : Mode) : Option (Mode × List Markup) := some (m, [])

/-- The markup of a run of characters, if there are any. -/
def run (read : List Char) : List Markup := if read.isEmpty then [] else [.text read.reverse]

/-- What follows `<!`, once it is known: markup outside a document type. -/
def bangOutside (read : List Char) : Option (Mode × List Markup) :=
  let word := String.ofList read.reverse
  if word = "--" then stay (.comment .outside 0)
  else if word = "[CDATA[" then stay (.literal [])
  else if word = "DOCTYPE" then stay (.doctype [] none)
  else if word = "-" || word.toList.isPrefixOf "[CDATA[".toList ||
      word.toList.isPrefixOf "DOCTYPE".toList then stay (.bang .outside read)
  else none

/-- Reads one more character: the mode after it, and the markup that it completes. -/
def step (m : Mode) (c : Char) : Option (Mode × List Markup) :=
  match m with
  | text read => if c = '<' then some (.less, run read) else stay (.text (c :: read))
  | less =>
    if c = '/' then stay (.endName [])
    else if c = '!' then stay (.bang .outside [])
    else if c = '?' then stay (.target .outside [])
    else stay (.startName [c])
  | startName read =>
    let t : OpenTag := ⟨read.reverse, []⟩
    if isSpace c || c = '>' || c = '/' then
      if isQualifiedName t.name then betweenAttributes t c else none
    else stay (.startName (c :: read))
  | tag t spaced =>
    if isSpace c || c = '>' || c = '/' then betweenAttributes t c
    else if spaced then stay (.key t [c])
    else none
  | key t read =>
    if c = '=' then
      if isQualifiedName read.reverse then stay (.quote t read.reverse) else none
    else if isSpace c then
      if isQualifiedName read.reverse then stay (.equals t read.reverse) else none
    else stay (.key t (c :: read))
  | equals t name =>
    if isSpace c then stay m else if c = '=' then stay (.quote t name) else none
  | quote t name =>
    if isSpace c then stay m
    else if c = '"' || c = '\'' then stay (.value t name c [])
    else none
  | value t name mark read =>
    if c = mark then stay (.tag ⟨t.name, (name, read.reverse) :: t.attributes⟩ false)
    else if c = '<' then none
    else stay (.value t name mark (c :: read))
  | closing t => if c = '>' then some (.text [], [t.markup true]) else none
  | endName read =>
    if c = '>' then some (.text [], [.endTag read.reverse])
    else if isSpace c then stay (.endSpace read.reverse)
    else stay (.endName (c :: read))
  | endSpace name =>
    if isSpace c then stay m else if c = '>' then some (.text [], [.endTag name]) else none
  | bang .outside read => bangOutside (c :: read)
  | bang (.inside d) read =>
    if c = '-' then
      if read.isEmpty then stay (.bang (.inside d) [c]) else stay (.comment (.inside d) 0)
    else if read.isEmpty then stay (.declaration d [c] none)
    else none
  | comment place dashes =>
    if c = '-' then if dashes < 2 then stay (.comment place (dashes + 1)) else none
    else if dashes < 2 then stay (.comment place 0)
    else if c = '>' then some (place.resume, place.markup .comment)
    else none
  | literal read =>
    match c, read with
    | '>', ']' :: ']' :: content => some (.text [], [.literal content.reverse])
    | _, _ => stay (.literal (c :: read))
  | target place read =>
    if isSpace c || c = '?' then
      if place.allows read.reverse then stay (.instruction place read.reverse [c]) else none
    else stay (.target place (c :: read))
  | instruction place name read =>
    match c, read with
    | '>', '?' :: content =>
      if content.getLast?.all isSpace then
        some (place.resume, place.markup (.instruction name content.reverse))
      else none
    | _, _ => stay (.instruction place name (c :: read))
  | doctype read mark =>
    if mark.isNone && c = '[' then stay (.subset ⟨read.reverse, []⟩)
    else if mark.isNone && c = '>' then some (.text [], [.doctype read.reverse []])
    else stay (.doctype (c :: read) (markAfter mark c))
  | subset d =>
    if isSpace c then stay m
    else if c = ']' then stay (.doctypeEnd d)
    else if c = '<' then stay (.subsetLess d)
    else if c = '%' then stay (.parameter d [])
    else none
  | subsetLess d =>
    if c = '!' then stay (.bang (.inside d) [])
    else if c = '?' then stay (.target (.inside d) [])
    else none
  | parameter d read =>
    if c = ';' then
      if isPlainName read.reverse then stay (.subset (d.add (.reference read.reverse))) else none
    else stay (.parameter d (c :: read))
  | declaration d read mark =>
    if mark.isNone && c = '>' then stay (.subset (d.add (.declaration read.reverse)))
    else stay (.declaration d (c :: read) (markAfter mark c))
  | doctypeEnd d =>
    if isSpace c then stay m else if c = '>' then some (.text [], [d.markup]) else none
where
  /-- White space, or one of the ends of a tag, between attributes. -/
  betweenAttributes (t : OpenTag) (c : Char) : Option (Mode × List Markup) :=
    if c = '>' then some (.text [], [t.markup false])
    else if c = '/' then stay (.closing t)
    else stay (.tag t true)

end Mode

/-- The machine: its mode, the markup it has completed, latest first, and whether a carriage return
came last. -/
structure Scanner where
  mode : Mode
  completed : List Markup
  returned : Bool

namespace Scanner

/-- The machine at the beginning of a document. -/
def start : Scanner := ⟨.text [], [], false⟩

/-- Reads one more character. -/
def step (s : Scanner) (c : Char) : Option Scanner :=
  if c = '\n' && s.returned then some { s with returned := false }
  else do
    let (mode, completed) ← s.mode.step (if c = '\r' then '\n' else c)
    return ⟨mode, completed ++ s.completed, c = '\r'⟩

/-- All markup, when the end of the document is no part of any. -/
def finish (s : Scanner) : Option (List Markup) :=
  match s.mode with
  | .text read => some (Mode.run read ++ s.completed).reverse
  | _ => none

end Scanner

/-- The markup of a document. -/
def markups? (cs : List Char) : Option (List Markup) := do
  (← cs.foldlM Scanner.step .start).finish

end Tromp.Xml
