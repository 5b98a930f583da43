import Tromp.Xml.Declaration.Token

/-!
# Declarations

A document type consists of declarations: what the elements of a name may hold, which attributes
they have, entities, and formats of data elsewhere.  This module is their grammar.  Only what the
rules for attributes and the entities say is kept.
-/

namespace Tromp.Xml

/-- What a document type says about the values that a key has in the elements of a name. -/
structure AttributeRule where
  element : String
  key : String
  /-- Whether the value is free text; in other values only words count. -/
  isText : Bool
  /-- The default value, if there is one. -/
  default : Option (List Char)
deriving DecidableEq, Repr

/-- A declaration in a document type. -/
inductive Declaration where
  /-- Says nothing about attributes or entities. -/
  | silent
  /-- The rules for attributes; their default values as they are written. -/
  | attributes (rules : List AttributeRule)
  /-- An entity, whether it stands for a part of a document type, and its value as it is written
  if it does not stand elsewhere. -/
  | entity (inType : Bool) (name : String) (value : Option (List Char))
deriving DecidableEq, Repr

namespace Declaration

/-- The name of an element or of an attribute. -/
def nameOf? : Token → Option String
  | .plain s => some s
  | .tagged s => some s
  | _ => none

/-- The groups of a content model that are open, innermost first, each with the sign between its
parts once there has been one, and whether a part has just been read. -/
structure Nesting where
  signs : List (Option Token)
  complete : Bool

namespace Nesting

/-- Reads one more token: parts and signs take turns, and the signs of a group are all the same. -/
def step (n : Nesting) (t : Token) : Option Nesting :=
  match n, t with
  | ⟨signs, false⟩, .opening => some ⟨none :: signs, false⟩
  | ⟨signs, false⟩, t =>
    let isPart := match t with
      | .counted _ => true
      | t => (nameOf? t).isSome
    if isPart && !signs.isEmpty then some ⟨signs, true⟩ else none
  | ⟨_ :: outer, true⟩, .closing _ => some ⟨outer, true⟩
  | ⟨sign :: outer, true⟩, t =>
    if (t = .comma || t = .bar) && sign.all (· = t) then some ⟨some t :: outer, false⟩ else none
  | ⟨[], true⟩, _ => none

end Nesting

/-- Whether tokens are one group of elements and groups. -/
def isGroup (ts : List Token) : Bool :=
  (ts.foldlM Nesting.step ⟨[], false⟩).any fun n => n.signs.isEmpty && n.complete

/-- Whether tokens are a choice between text and elements. -/
def isMixed : List Token → Bool
  | [.opening, .reserved "PCDATA", .closing none] => true
  | .opening :: .reserved "PCDATA" :: rest => elements rest
  | _ => false
where
  /-- The names of the elements, and the end, which says that there may be any number. -/
  elements : List Token → Bool
    | [.closing (some '*')] => true
    | .bar :: t :: rest => (nameOf? t).isSome && elements rest
    | _ => false

/-- Whether tokens say what an element may hold. -/
def isContent (ts : List Token) : Bool :=
  ts = [.plain "EMPTY"] || ts = [.plain "ANY"] || isMixed ts || isGroup ts

/-- The tokens after a choice, of which the opening parenthesis has been read. -/
def afterChoice? (allowed : Token → Bool) : List Token → Option (List Token)
  | t :: .bar :: rest => if allowed t then afterChoice? allowed rest else none
  | t :: .closing none :: rest => if allowed t then some rest else none
  | _ => none

/-- Whether a token is a name without a colon. -/
def isPlain : Token → Bool
  | .plain _ => true
  | _ => false

/-- Whether a token is made of the characters of names. -/
def isWord : Token → Bool
  | .loose _ => true
  | t => (nameOf? t).isSome

/-- The types of values that are made of words. -/
def wordTypes : List String :=
  ["ID", "IDREF", "IDREFS", "ENTITY", "ENTITIES", "NMTOKEN", "NMTOKENS"]

/-- Whether the values of a type are free text, and the tokens after the type. -/
def type? : List Token → Option (Bool × List Token)
  | .plain "NOTATION" :: .opening :: rest => (afterChoice? isPlain rest).map (false, ·)
  | .opening :: rest => (afterChoice? isWord rest).map (false, ·)
  | .plain "CDATA" :: rest => some (true, rest)
  | .plain t :: rest => if t ∈ wordTypes then some (false, rest) else none
  | _ => none

/-- The default with which tokens begin, if any, and the tokens after it. -/
def default? : List Token → Option (Option (List Char) × List Token)
  | .reserved "REQUIRED" :: rest => some (none, rest)
  | .reserved "IMPLIED" :: rest => some (none, rest)
  | .reserved "FIXED" :: .literal v :: rest => some (some v, rest)
  | .literal v :: rest => some (some v, rest)
  | _ => none

/-- The rules for the keys of an element, at most `fuel` of them. -/
def rulesFor? (element : String) : Nat → List Token → Option (List AttributeRule)
  | _, [] => some []
  | fuel + 1, key :: ts => do
    let key ← nameOf? key
    let (isText, ts) ← type? ts
    let (default, ts) ← default? ts
    return ⟨element, key, isText, default⟩ :: (← rulesFor? element fuel ts)
  | _, _ => none

/-- Whether a text can be a public identifier. -/
def isPublic (cs : List Char) : Bool :=
  cs.all fun c => c.isAlphanum || c ∈ " \n-'()+,./:=?;!*#@$_%".toList

/-- The tokens after the identifiers of something outside the document. -/
def afterIdentifiers? : List Token → Option (List Token)
  | .plain "SYSTEM" :: .literal _ :: rest => some rest
  | .plain "PUBLIC" :: .literal identifier :: .literal _ :: rest =>
    if isPublic identifier then some rest else none
  | _ => none

/-- Whether tokens are the identifiers of something outside the document, and no more. -/
def isElsewhere (ts : List Token) : Bool := afterIdentifiers? ts == some []

/-- What tokens declare after a keyword. -/
def ofTokens? (keyword : String) (ts : List Token) : Option Declaration :=
  match keyword, ts with
  | "ELEMENT", name :: content =>
    if (nameOf? name).isSome && isContent content then some .silent else none
  | "ATTLIST", element :: rest => do
    return .attributes (← rulesFor? (← nameOf? element) rest.length rest)
  | "ENTITY", [.plain name, .literal value] => some (.entity false name (some value))
  | "ENTITY", .plain name :: outside =>
    match afterIdentifiers? outside with
    | some [] => some (.entity false name none)
    | some [.plain "NDATA", .plain _] => some (.entity false name none)
    | _ => none
  | "ENTITY", [.percent, .plain name, .literal value] => some (.entity true name (some value))
  | "ENTITY", .percent :: .plain name :: outside =>
    if isElsewhere outside then some (.entity true name none) else none
  | "NOTATION", [.plain _, .plain "PUBLIC", .literal identifier] =>
    if isPublic identifier then some .silent else none
  | "NOTATION", .plain _ :: outside => if isElsewhere outside then some .silent else none
  | _, _ => none

/-- What a text declares that stands between the brackets of a declaration.  White space follows
the keyword. -/
def ofText? (cs : List Char) : Option Declaration :=
  let isKey := fun c : Char => c.isAlpha || c == '_'
  match cs.dropWhile isKey with
  | [] => none
  | c :: rest => do
    if !isSpace c then none
    ofTokens? (String.ofList (cs.takeWhile isKey)) (← Token.ofText? rest)

end Declaration

end Tromp.Xml
