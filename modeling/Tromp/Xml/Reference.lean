import Tromp.Xml.Name

/-!
# References

Character data and attribute values may refer to characters by name or by code point, between an
ampersand and a semicolon.  Five names are predefined, and no other can be declared.
-/

namespace Tromp.Xml

/-- The value of a digit to a base of at most sixteen. -/
def digitOf? (base : Nat) (c : Char) : Option Nat :=
  let n :=
    if c.isDigit then c.toNat - '0'.toNat
    else if 'a' ≤ c && c ≤ 'f' then c.toNat - 'a'.toNat + 10
    else if 'A' ≤ c && c ≤ 'F' then c.toNat - 'A'.toNat + 10
    else base
  if n < base then some n else none

/-- The character of a code point given by its digits to a base. -/
def characterOf? (base : Nat) (ds : List Char) : Option Char :=
  if ds.isEmpty then none
  else do
    let n ← ds.foldlM (fun n c => (digitOf? base c).map (base * n + ·)) 0
    let c := Char.ofNat n
    if n.isValidChar && isDocumentChar c then some c else none

/-- The character that a predefined name stands for. -/
def predefined? (name : String) : Option Char :=
  [("amp", '&'), ("lt", '<'), ("gt", '>'), ("apos", '\''), ("quot", '"')].lookup name

/-- The character that a reference stands for. -/
def referenced? : List Char → Option Char
  | '#' :: 'x' :: ds => characterOf? 16 ds
  | '#' :: ds => characterOf? 10 ds
  | name => predefined? (String.ofList name)

/-- What has been read of a text with references: its characters, latest first, and the reference
that has been begun. -/
structure Expansion where
  read : List Char
  begun : Option (List Char)

/-- Reads one more character.  Characters outside references are changed by `raw`; a reference to
an unknown name is left out where that is allowed. -/
def Expansion.step (raw : Char → Char) (skipsUnknown : Bool) (e : Expansion) (c : Char) :
    Option Expansion :=
  match e.begun with
  | none => if c = '&' then some { e with begun := some [] } else some ⟨raw c :: e.read, none⟩
  | some name =>
    if c = ';' then
      match referenced? name.reverse with
      | some d => some ⟨d :: e.read, none⟩
      | none => if skipsUnknown && isPlainName name.reverse then some ⟨e.read, none⟩ else none
    else some { e with begun := some (c :: name) }

/-- The text with its references replaced. -/
def expandReferences (raw : Char → Char) (skipsUnknown : Bool) (cs : List Char) :
    Option (List Char) := do
  let e ← cs.foldlM (Expansion.step raw skipsUnknown) ⟨[], none⟩
  if e.begun.isSome then none else some e.read.reverse

/-- The value of an attribute: white space in it counts as spaces. -/
def attributeValue? (skipsUnknown : Bool) (cs : List Char) : Option (List Char) :=
  expandReferences (fun c => if isSpace c then ' ' else c) skipsUnknown cs

/-- The characters of a run of character data, which must not hold the end of a literal section. -/
def characterData? (cs : List Char) : Option (List Char) :=
  let ends := cs.foldl (fun (s : Nat × Bool) c =>
    if c = ']' then (s.1 + 1, s.2) else (0, s.2 || (c = '>' && 2 ≤ s.1))) (0, false)
  if ends.2 then none else expandReferences id false cs

end Tromp.Xml
