import Tromp.Xml.DocumentType
import Tromp.Xml.Element
import Tromp.Xml.Markup
import Tromp.Xml.Preamble

/-!
# Documents

A document has one root element, with every element closed inside the one that holds it; around the
root stand only white space, comments and instructions, and before it perhaps a declaration of the
document and its type.  Names may have tags that are bound to namespaces by attributes.  A document
that breaks a rule has no root at all.
-/

namespace Tromp.Xml

/-- The namespaces that tags are bound to, innermost first. -/
abbrev Bindings := List (String × String)

/-- The namespace of the tag `xml`. -/
def xmlNamespace : String := "http://www.w3.org/XML/1998/namespace"

/-- The namespace of the attributes that bind tags. -/
def bindingNamespace : String := "http://www.w3.org/2000/xmlns/"

/-- The tag of a name, empty when it has none, and what it tags. -/
def splitName (name : String) : String × String :=
  match name.toList.dropWhile (· != ':') with
  | [] => ("", name)
  | _ :: rest => (String.ofList (name.toList.takeWhile (· != ':')), String.ofList rest)

namespace Bindings

/-- The tag that an attribute binds: the empty one by `xmlns`, another by `xmlns:tag`. -/
def target? (key : String) : Option String :=
  if key = "xmlns" then some ""
  else match splitName key with
    | ("xmlns", tag) => some tag
    | _ => none

/-- Whether a tag may be bound to a namespace. -/
def allowed (tag space : String) : Bool :=
  (tag.isEmpty || !space.isEmpty) && tag != "xmlns" &&
    ((tag == "xml") == (space == xmlNamespace)) && space != bindingNamespace &&
    !space.toList.contains '\x7d'

/-- The bindings inside an element with some attributes. -/
def extend? (b : Bindings) (attributes : List (String × String)) : Option Bindings :=
  attributes.foldlM (fun b a =>
    match target? a.1 with
    | some tag => if allowed tag a.2 then some ((tag, a.2) :: b) else none
    | none => some b) b

/-- The name with its tag replaced by the namespace; a name without a tag has none. -/
def expand? (b : Bindings) (name : String) : Option (String × String) :=
  match splitName name with
  | ("", n) => some ("", n)
  | (tag, n) => (b.lookup tag).map (·, n)

/-- Whether all tags of an element are bound and no two of its attributes have the same name. -/
def accept (b : Bindings) (name : String) (attributes : List (String × String)) : Bool :=
  let keys := attributes.filter fun a => (target? a.1).isNone
  (b.expand? name).isSome &&
    match keys.mapM fun a => b.expand? a.1 with
    | some expanded => decide expanded.Nodup
    | none => false

end Bindings

/-- An element that has been opened: the bindings inside it, its text so far, and its children,
latest first. -/
structure OpenElement where
  name : String
  attributes : List (String × String)
  bindings : Bindings
  text : String
  children : List Element

/-- The element when it is closed. -/
def OpenElement.close (e : OpenElement) : Element :=
  .node e.name e.attributes e.text e.children.reverse

/-- What has been built of a document: the elements that are open, innermost first, the root once it
is closed, the document type once it is declared, whether the document stands alone, and whether
anything was read at all. -/
structure Builder where
  opened : List OpenElement
  root : Option Element
  type : Option DocumentType
  standsAlone : Bool
  started : Bool

namespace Builder

/-- Nothing has been built. -/
def start : Builder := ⟨[], none, none, false, false⟩

/-- The rules in force. -/
def rules (b : Builder) : DocumentType := b.type.getD .plain

/-- Adds an element that is complete. -/
def add (b : Builder) (e : Element) : Builder :=
  match b.opened with
  | [] => { b with root := some e }
  | parent :: outer =>
    { b with opened := { parent with children := e :: parent.children } :: outer }

/-- Adds text, which has to stand in an element. -/
def addText? (b : Builder) (cs : List Char) : Option Builder :=
  match b.opened with
  | [] => none
  | e :: outer => some { b with opened := { e with text := e.text ++ String.ofList cs } :: outer }

/-- The attributes of a start tag, with the values and the defaults that the document type gives. -/
def attributes? (b : Builder) (name : String) (raw : List (List Char × List Char)) :
    Option (List (String × String)) := do
  let given ← raw.mapM fun a => do
    let value ← attributeValue? b.rules.skipsUnknown a.2
    let key := String.ofList a.1
    return (key, String.ofList (b.rules.adjust name key value))
  let all := (b.rules.defaults name).foldl (fun as d => if as.any (·.1 == d.1) then as else as ++ [d]) given
  if (given.map (·.1)).Nodup then some all else none

/-- Opens an element, which must not stand after the root. -/
def open? (b : Builder) (name : String) (raw : List (List Char × List Char)) :
    Option OpenElement := do
  let outer := match b.opened with
    | e :: _ => e.bindings
    | [] => [("xml", xmlNamespace)]
  let attributes ← b.attributes? name raw
  let bindings ← outer.extend? attributes
  if b.opened.isEmpty && b.root.isSome then none
  else if bindings.accept name attributes then some ⟨name, attributes, bindings, "", []⟩
  else none

/-- Takes in one more piece of markup. -/
def step (b : Builder) (m : Markup) : Option Builder := do
  let first := !b.started
  let b := { b with started := true }
  match m with
  | .text raw =>
    if b.opened.isEmpty then if raw.all isSpace then some b else none
    else b.addText? (← characterData? raw)
  | .literal content => b.addText? content
  | .startTag name raw closed =>
    let e ← b.open? (String.ofList name) raw
    if closed then some (b.add e.close) else some { b with opened := e :: b.opened }
  | .endTag name =>
    match b.opened with
    | [] => none
    | e :: outer =>
      if e.name = String.ofList name then some ({ b with opened := outer }.add e.close) else none
  | .comment => some b
  | .instruction target content =>
    if target = "xml".toList then
      if first then
        let standsAlone ← Preamble.standsAlone? content
        some { b with standsAlone }
      else none
    else some b
  | .doctype head parts =>
    let type ← DocumentType.ofParts? b.standsAlone head parts
    if b.opened.isEmpty && b.root.isNone && b.type.isNone then some { b with type := some type }
    else none

/-- The root, when everything is closed. -/
def finish (b : Builder) : Option Element := if b.opened.isEmpty then b.root else none

end Builder

/-- The root element of a document, if the document keeps all rules. -/
def root? (document : String) : Option Element := do
  let cs := match document.toList with
    | '\ufeff' :: rest => rest
    | cs => cs
  if !cs.all isDocumentChar then none
  let ms ← markups? cs
  (← ms.foldlM Builder.step .start).finish

end Tromp.Xml
