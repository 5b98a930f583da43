import Tromp.Xml.Declaration
import Tromp.Xml.Markup
import Tromp.Xml.Reference

/-!
# Document types

A document may begin with a declaration of its type, which can give rules for attributes, with
default values.  Declarations of entities are refused, so every reference to a name that is not
predefined is unknown; declaring a predefined name again changes nothing.  Where a document that
does not stand alone leaves part of its type to another document, unknown references in attribute
values are skipped, and declarations that come after a reference to the other document say nothing,
though they have to be declarations.
-/

namespace Tromp.Xml

/-- What a document type says. -/
structure DocumentType where
  /-- The rules for attributes, in order; of two rules for the same key of an element the first one
  holds. -/
  rules : List AttributeRule
  /-- Whether unknown references in attribute values are skipped. -/
  skipsUnknown : Bool

namespace DocumentType

/-- The type of a document that declares none. -/
def plain : DocumentType := ⟨[], false⟩

/-- The rule for a key of an element, if there is one. -/
def rule? (t : DocumentType) (element key : String) : Option AttributeRule :=
  t.rules.find? fun r => r.element == element && r.key == key

/-- The value with single spaces between its words. -/
def squeeze (cs : List Char) : List Char :=
  List.intercalate [' '] ((cs.splitOnP (· == ' ')).filter fun w => !w.isEmpty)

/-- The value of a key in an element. -/
def adjust (t : DocumentType) (element key : String) (value : List Char) : List Char :=
  match t.rule? element key with
  | some r => if r.isText then value else squeeze value
  | none => value

/-- The default values of the attributes of an element, in order. -/
def defaults (t : DocumentType) (element : String) : List (String × String) :=
  t.rules.filterMap fun r =>
    if r.element == element && t.rule? element r.key == some r then
      r.default.map fun v => (r.key, String.ofList v)
    else none

/-- The rule with its default value read. -/
def readDefault? (skipsUnknown : Bool) (r : AttributeRule) : Option AttributeRule :=
  match r.default with
  | none => some r
  | some raw => do
    if '<' ∈ raw then none
    let value ← attributeValue? skipsUnknown raw
    return { r with default := some (if r.isText then value else squeeze value) }

/-- Whether the value of an entity can be read; none that stands elsewhere is. -/
def isValue (value : Option (List Char)) : Bool :=
  value.all fun raw => !raw.contains '%' && (expandReferences id true raw).isSome

/-- The rules of a declaration that counts.  Only an entity of a predefined name may be declared. -/
def heed? (skipsUnknown : Bool) : Declaration → Option (List AttributeRule)
  | .silent => some []
  | .attributes rules => rules.mapM (readDefault? skipsUnknown)
  | .entity inType name value =>
    if !inType && (predefined? name).isSome && isValue value then some [] else none

/-- The rules of the parts of a document type, in order. -/
def allRules? (standsAlone skipsUnknown : Bool) : List TypePart → Option (List AttributeRule)
  | [] => some []
  | .reference _ :: rest =>
    if standsAlone then allRules? standsAlone skipsUnknown rest
    else if rest.all isPart then some []
    else none
  | .declaration text :: rest => do
    return (← heed? skipsUnknown (← Declaration.ofText? text)) ++
      (← allRules? standsAlone skipsUnknown rest)
where
  /-- Whether a part that says nothing has the form of one. -/
  isPart : TypePart → Bool
    | .reference _ => true
    | .declaration text => (Declaration.ofText? text).isSome

/-- The document type with a head and parts. -/
def ofParts? (standsAlone : Bool) (head : List Char) (parts : List TypePart) :
    Option DocumentType := do
  if !head.head?.any isSpace then none
  match ← Declaration.Token.ofText? head with
  | name :: outside =>
    let elsewhere := !outside.isEmpty || parts.any TypePart.isReference
    let rules ← allRules? standsAlone (!outside.isEmpty && !standsAlone) parts
    if (Declaration.nameOf? name).isSome &&
        (outside.isEmpty || Declaration.isElsewhere outside) then
      some ⟨rules, elsewhere && !standsAlone⟩
    else none
  | [] => none

end DocumentType

end Tromp.Xml
