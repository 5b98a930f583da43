/-!
# Elements

An element has a name, attributes in order, text and children.  Elements are printed as they are:
nothing is escaped, so a text that holds markup becomes markup.  That is why what is read back from
a printed element can differ from it.
-/

namespace Tromp.Xml

/-- An element of a document. -/
inductive Element where
  | node (name : String) (attributes : List (String × String)) (text : String)
    (children : List Element)
deriving Inhabited

namespace Element

/-- The name as it is written, with its namespace tag if it has one. -/
def name : Element → String
  | node n _ _ _ => n

/-- The attributes in order. -/
def attributes : Element → List (String × String)
  | node _ as _ _ => as

/-- The text directly in an element. -/
def text : Element → String
  | node _ _ t _ => t

/-- The elements directly in an element. -/
def children : Element → List Element
  | node _ _ _ cs => cs

/-- The value of an attribute. -/
def attribute? (e : Element) (key : String) : Option String := e.attributes.lookup key

/-- The name without its namespace tag. -/
def localName (e : Element) : String :=
  String.ofList (afterColon e.name.toList)
where
  /-- What follows a colon, or everything when there is none. -/
  afterColon (cs : List Char) : List Char :=
    match cs.dropWhile (· != ':') with
    | [] => cs
    | _ :: rest => rest

/-- The printed form of an attribute. -/
def printAttribute (a : String × String) : String := " " ++ a.1 ++ "=\"" ++ a.2 ++ "\""

mutual

/-- The pieces of the printed form of an element, in order.  One without text and children closes
itself. -/
def pieces : Element → List String
  | node name attributes text children =>
    let start := ["<", name] ++ attributes.map printAttribute
    if text.isEmpty && children.isEmpty then start ++ ["/>"]
    else start ++ [">", text] ++ piecesOf children ++ ["</", name, ">"]

/-- The pieces of some elements, one after another. -/
def piecesOf : List Element → List String
  | [] => []
  | e :: rest => e.pieces ++ piecesOf rest

end

/-- The printed form of an element. -/
def print (e : Element) : String := String.join e.pieces

end Element

end Tromp.Xml
