import Mathlib.Data.List.TakeWhile
import Tromp.Xml.Document

/-!
# Printed elements are cut into their markup

A printed element escapes nothing, so it is cut at the right places only if its parts hold no
character that means anything there.  `Element.Formed` is the class of elements for which that is so:
plain names, distinct keys, texts of characters that stand for themselves, and values that may stand
in an attribute.  How much is asked of the values is left open: those of an `Element.Plain` hold
nothing but characters that stand for themselves, those of a `Legible` one may hold references and
white space of any kind.

The machine is followed through a printed element part by part.  `Scans` says that some characters
take it from one mode to another and complete some markup on the way; two stretches that meet in a
mode make one (`Scans.append`).  The key fact about start tags is that a name and a complete
attribute leave the machine in the same situation (`Mode.AtEnd`): what may come next is another
attribute or the end of the tag.
-/

namespace Tromp.Xml

/-- The characters that stand for themselves in text and in values. -/
def isInert (c : Char) : Bool :=
  isDocumentChar c && (c == ' ' || !isSpace c) &&
    !(c == '&' || c == '<' || c == '>' || c == '"')

/-- A text of characters that stand for themselves. -/
def Inert (s : String) : Prop := ∀ c ∈ s.toList, isInert c = true

/-- Some characters with every line end as one line feed, after a carriage return or something
else. -/
def lineFeeds (returned : Bool) : List Char → List Char
  | [] => []
  | c :: cs =>
    if c = '\n' && returned then lineFeeds false cs
    else (if c = '\r' then '\n' else c) :: lineFeeds (c = '\r') cs

/-- A text that may stand in the value of an attribute: characters of documents, none of which ends
the value or is refused in it, and every reference stands for something. -/
structure Legible (s : String) : Prop where
  characters : ∀ c ∈ s.toList, isDocumentChar c = true ∧ c ≠ '<' ∧ c ≠ '"'
  references : (attributeValue? false (lineFeeds false s.toList)).isSome = true

-- Only the characters of the text are looked at, though there are finitely many characters at all.
instance : DecidablePred Legible := fun s =>
  have : Decidable (∀ c ∈ s.toList, isDocumentChar c = true ∧ c ≠ '<' ∧ c ≠ '"') :=
    List.decidableBAll _ _
  decidable_of_iff ((∀ c ∈ s.toList, isDocumentChar c = true ∧ c ≠ '<' ∧ c ≠ '"') ∧
      (attributeValue? false (lineFeeds false s.toList)).isSome = true)
    ⟨fun h => ⟨h.1, h.2⟩, fun h => ⟨h.characters, h.references⟩⟩

/-- An element whose names and texts hold no markup, with values of some kind.  The attribute that
binds the empty tag, if there is one, binds it to a namespace that it may be bound to. -/
inductive Element.Formed (V : String → Prop) : Element → Prop
  | node {name : String} {attributes : List (String × String)} {text : String}
      {children : List Element} (name_plain : isPlainName name.toList = true)
      (keys_plain : ∀ a ∈ attributes, isPlainName a.1.toList = true)
      (values : ∀ a ∈ attributes, V a.2)
      (keys_nodup : (attributes.map Prod.fst).Nodup)
      (binding_allowed : ∀ a ∈ attributes, a.1 = "xmlns" →
        Inert a.2 ∧ Bindings.allowed "" a.2 = true)
      (text_inert : Inert text) (children_formed : ∀ e ∈ children, Formed V e) :
      Formed V (.node name attributes text children)

/-- An element whose parts hold no markup. -/
abbrev Element.Plain : Element → Prop := Element.Formed Inert

/-! ### Characters -/

theorem ne_of_isNameChar {c d : Char} (h : isNameChar c = true) (hd : isNameChar d = false) :
    c ≠ d := by
  intro heq
  rw [heq, hd] at h
  contradiction

theorem ne_of_isInert {c d : Char} (h : isInert c = true) (hd : isInert d = false) : c ≠ d := by
  intro heq
  rw [heq, hd] at h
  contradiction

theorem isSpace_eq_false {c : Char} (h : isNameChar c = true) : isSpace c = false := by
  have h₁ := ne_of_isNameChar (d := ' ') h (by decide)
  have h₂ := ne_of_isNameChar (d := '\t') h (by decide)
  have h₃ := ne_of_isNameChar (d := '\n') h (by decide)
  have h₄ := ne_of_isNameChar (d := '\r') h (by decide)
  simp [isSpace, h₁, h₂, h₃, h₄]

theorem isNameChar_of_isNameStart {c : Char} (h : isNameStart c = true) : isNameChar c = true := by
  unfold isNameStart at h
  unfold isNameChar
  split at h <;> rename_i hsmall
  · simp only [Bool.or_eq_true] at h
    rcases h with h | h
    · simp [hsmall, Char.isAlphanum, h]
    · simp [hsmall, h]
  · simp [hsmall, h]

/-- The characters of a plain name. -/
theorem isNameChar_of_mem {cs : List Char} (h : isPlainName cs = true) {c : Char} (hc : c ∈ cs) :
    isNameChar c = true := by
  cases cs with
  | nil => cases hc
  | cons d ds =>
      obtain ⟨hd, hds⟩ := Bool.and_eq_true_iff.mp h
      rcases List.mem_cons.mp hc with heq | hmem
      · rw [heq]
        exact isNameChar_of_isNameStart hd
      · exact List.all_eq_true.mp hds c hmem

/-- There is no colon in a plain name. -/
theorem dropWhile_ne_colon {cs : List Char} (h : ∀ c ∈ cs, isNameChar c = true) :
    cs.dropWhile (· != ':') = [] := by
  refine List.dropWhile_eq_nil_iff.mpr ?_
  intro c hc
  simpa using ne_of_isNameChar (d := ':') (h c hc) (by decide)

theorem isQualifiedName_of_plain {cs : List Char} (h : isPlainName cs = true) :
    isQualifiedName cs = true := by
  rw [isQualifiedName, dropWhile_ne_colon fun c hc => isNameChar_of_mem h hc]
  exact h

/-! ### One character

What the machine does in the modes that a printed element takes it through. -/

namespace Mode

variable (c : Char) (t : OpenTag) (name read : List Char)

theorem step_text : (text read).step c =
    if c = '<' then some (.less, run read) else stay (.text (c :: read)) := rfl

theorem step_less : less.step c =
    if c = '/' then stay (.endName [])
    else if c = '!' then stay (.bang .outside [])
    else if c = '?' then stay (.target .outside [])
    else stay (.startName [c]) := rfl

theorem step_startName : (startName read).step c =
    if isSpace c || c = '>' || c = '/' then
      if isQualifiedName read.reverse then step.betweenAttributes ⟨read.reverse, []⟩ c else none
    else stay (.startName (c :: read)) := rfl

theorem step_tag (spaced : Bool) : (tag t spaced).step c =
    if isSpace c || c = '>' || c = '/' then step.betweenAttributes t c
    else if spaced then stay (.key t [c])
    else none := rfl

theorem step_key : (key t read).step c =
    if c = '=' then
      if isQualifiedName read.reverse then stay (.quote t read.reverse) else none
    else if isSpace c then
      if isQualifiedName read.reverse then stay (.equals t read.reverse) else none
    else stay (.key t (c :: read)) := rfl

theorem step_quote : (quote t name).step c =
    if isSpace c then stay (quote t name)
    else if c = '"' || c = '\'' then stay (.value t name c [])
    else none := rfl

theorem step_value (mark : Char) : (value t name mark read).step c =
    if c = mark then stay (.tag ⟨t.name, (name, read.reverse) :: t.attributes⟩ false)
    else if c = '<' then none
    else stay (.value t name mark (c :: read)) := rfl

theorem step_closing : (closing t).step c =
    if c = '>' then some (.text [], [t.markup true]) else none := rfl

theorem step_endName : (endName read).step c =
    if c = '>' then some (.text [], [.endTag read.reverse])
    else if isSpace c then stay (.endSpace read.reverse)
    else stay (.endName (c :: read)) := rfl

end Mode

/-! ### Stretches of a document -/

/-- Some characters take the machine from one mode to another; the markup that is completed on the
way is listed latest first. -/
def Scans (m : Mode) (cs : List Char) (m' : Mode) (ms : List Markup) : Prop :=
  ∀ completed, cs.foldlM Scanner.step ⟨m, completed, false⟩ = some ⟨m', ms ++ completed, false⟩

variable {m m₁ m₂ : Mode} {c : Char} {cs ds : List Char} {ms ns : List Markup} {t : OpenTag}

theorem Scans.nil : Scans m [] m [] := fun _ => rfl

theorem Scans.append (h₁ : Scans m cs m₁ ms) (h₂ : Scans m₁ ds m₂ ns) :
    Scans m (cs ++ ds) m₂ (ns ++ ms) := by
  intro completed
  rw [List.foldlM_append, h₁ completed]
  simpa using h₂ (ms ++ completed)

/-- One character other than a carriage return. -/
theorem Scans.one (hc : c ≠ '\r') (h : m.step c = some (m₁, ms)) : Scans m [c] m₁ ms := by
  intro completed
  simp [Scanner.step, hc, h]

theorem Scans.cons (hc : c ≠ '\r') (h₁ : m.step c = some (m₁, ms)) (h₂ : Scans m₁ ds m₂ ns) :
    Scans m (c :: ds) m₂ (ns ++ ms) :=
  (Scans.one hc h₁).append h₂

/-- Characters that are only collected. -/
theorem Scans.collect {collected : List Char → Mode}
    (h : ∀ c ∈ cs, c ≠ '\r' ∧ ∀ read, (collected read).step c = some (collected (c :: read), []))
    (read : List Char) : Scans (collected read) cs (collected (cs.reverse ++ read)) [] := by
  induction cs generalizing read with
  | nil => exact Scans.nil
  | cons c cs ih =>
      obtain ⟨hc, hstep⟩ := h c List.mem_cons_self
      have hrest := ih (fun d hd => h d (List.mem_cons_of_mem _ hd)) (c :: read)
      simpa using Scans.cons hc (hstep read) hrest

/-- A run of characters is one piece of markup at most. -/
theorem Mode.reverse_run (read : List Char) : (Mode.run read).reverse = Mode.run read := by
  unfold Mode.run
  split <;> rfl

/-! ### Tags -/

/-- The machine has read the name of a start tag and some complete attributes. -/
def Mode.AtEnd (m : Mode) (t : OpenTag) : Prop :=
  ∀ c, isSpace c || c = '>' || c = '/' → m.step c = Mode.step.betweenAttributes t c

theorem Mode.atEnd_tag (t : OpenTag) (spaced : Bool) : (Mode.tag t spaced).AtEnd t := by
  intro c hc
  simp [Mode.step_tag, hc]

theorem Mode.atEnd_startName {name : List Char} (h : isPlainName name = true) :
    (Mode.startName name.reverse).AtEnd ⟨name, []⟩ := by
  intro c hc
  simp [Mode.step_startName, hc, isQualifiedName_of_plain h]

/-- The name of a start tag. -/
theorem Scans.startName {name : List Char} (h : isPlainName name = true) :
    Scans .less name (.startName name.reverse) [] := by
  cases name with
  | nil => contradiction
  | cons c cs =>
      have hc := isNameChar_of_mem h List.mem_cons_self
      have hfirst : Mode.less.step c = some (.startName [c], []) := by
        have h₁ := ne_of_isNameChar (d := '/') hc (by decide)
        have h₂ := ne_of_isNameChar (d := '!') hc (by decide)
        have h₃ := ne_of_isNameChar (d := '?') hc (by decide)
        simp [Mode.step_less, Mode.stay, h₁, h₂, h₃]
      have hrest : Scans (.startName [c]) cs (.startName (cs.reverse ++ [c])) [] := by
        refine Scans.collect ?_ [c]
        intro d hd
        have hname := isNameChar_of_mem h (List.mem_cons_of_mem _ hd)
        have h₁ := ne_of_isNameChar (d := '>') hname (by decide)
        have h₂ := ne_of_isNameChar (d := '/') hname (by decide)
        refine ⟨ne_of_isNameChar hname (by decide), ?_⟩
        intro read
        simp [Mode.step_startName, Mode.stay, isSpace_eq_false hname, h₁, h₂]
      simpa using Scans.cons (ne_of_isNameChar hc (by decide)) hfirst hrest

/-- The key of an attribute, up to the equals sign. -/
theorem Scans.key {key : List Char} (h : isPlainName key = true) :
    Scans (.tag t true) (key ++ ['=']) (.quote t key) [] := by
  cases key with
  | nil => contradiction
  | cons c cs =>
      have hc := isNameChar_of_mem h List.mem_cons_self
      have hfirst : (Mode.tag t true).step c = some (.key t [c], []) := by
        have h₁ := ne_of_isNameChar (d := '>') hc (by decide)
        have h₂ := ne_of_isNameChar (d := '/') hc (by decide)
        simp [Mode.step_tag, Mode.stay, isSpace_eq_false hc, h₁, h₂]
      have hrest : Scans (.key t [c]) cs (.key t (cs.reverse ++ [c])) [] := by
        refine Scans.collect ?_ [c]
        intro d hd
        have hname := isNameChar_of_mem h (List.mem_cons_of_mem _ hd)
        have h₁ := ne_of_isNameChar (d := '=') hname (by decide)
        refine ⟨ne_of_isNameChar hname (by decide), ?_⟩
        intro read
        simp [Mode.step_key, Mode.stay, isSpace_eq_false hname, h₁]
      have hlast : Scans (.key t (cs.reverse ++ [c])) ['='] (.quote t (c :: cs)) [] := by
        refine Scans.one (by decide) ?_
        simp [Mode.step_key, Mode.stay, isQualifiedName_of_plain h]
      simpa using (Scans.cons (ne_of_isNameChar hc (by decide)) hfirst hrest).append hlast

/-- Characters that are only collected, with any line ends. -/
theorem foldlM_lineFeeds {collected : List Char → Mode}
    (h : ∀ c ∈ cs, ∀ read, (collected read).step (if c = '\r' then '\n' else c) =
      some (collected ((if c = '\r' then '\n' else c) :: read), []))
    (read : List Char) (completed : List Markup) (returned : Bool) :
    ∃ returned', cs.foldlM Scanner.step ⟨collected read, completed, returned⟩ =
      some ⟨collected ((lineFeeds returned cs).reverse ++ read), completed, returned'⟩ := by
  induction cs generalizing read returned with
  | nil => exact ⟨returned, rfl⟩
  | cons c cs ih =>
      have hrest := ih fun d hd => h d (List.mem_cons_of_mem _ hd)
      rw [List.foldlM_cons, lineFeeds]
      by_cases hskipped : (c = '\n' && returned) = true
      · obtain ⟨returned', hlast⟩ := hrest read false
        refine ⟨returned', ?_⟩
        simpa [Scanner.step, hskipped] using hlast
      · obtain ⟨returned', hlast⟩ := hrest ((if c = '\r' then '\n' else c) :: read) (c = '\r')
        refine ⟨returned', ?_⟩
        simpa [Scanner.step, hskipped, h c List.mem_cons_self read] using hlast

/-- The quote before a value. -/
theorem Scans.openValue (t : OpenTag) (key : List Char) :
    Scans (.quote t key) ['"'] (.value t key '"' []) [] := by
  refine Scans.one (by decide) ?_
  simp [Mode.step_quote, Mode.stay, isSpace]

/-- A character of a value, with any line end as a line feed. -/
theorem Mode.step_value_plain {key : List Char} (hc : c ≠ '<' ∧ c ≠ '"') (read : List Char) :
    (Mode.value t key '"' read).step (if c = '\r' then '\n' else c) =
      some (.value t key '"' ((if c = '\r' then '\n' else c) :: read), []) := by
  obtain ⟨hless, hmark⟩ := hc
  by_cases hreturn : c = '\r'
  · simp [Mode.step_value, Mode.stay, hreturn]
  · simp [Mode.step_value, Mode.stay, hreturn, hless, hmark]

/-- The value of an attribute in its marks. -/
theorem Scans.value {key value : List Char} (h : ∀ c ∈ value, c ≠ '<' ∧ c ≠ '"') :
    Scans (.quote t key) ('"' :: (value ++ ['"']))
      (.tag ⟨t.name, (key, lineFeeds false value) :: t.attributes⟩ false) [] := by
  have hclose : Scans (.value t key '"' []) (value ++ ['"'])
      (.tag ⟨t.name, (key, lineFeeds false value) :: t.attributes⟩ false) [] := by
    intro completed
    obtain ⟨returned, hlast⟩ :=
      foldlM_lineFeeds (fun c hc => Mode.step_value_plain (h c hc)) [] completed false
    rw [List.foldlM_append, hlast]
    simp [Scanner.step, Mode.step_value, Mode.stay]
  exact (Scans.openValue t key).append hclose

/-- An attribute as the markup of its tag holds it. -/
def rawAttribute (a : String × String) : List Char × List Char :=
  (a.1.toList, lineFeeds false a.2.toList)

/-- The characters of a printed attribute. -/
theorem toList_printAttribute (a : String × String) :
    (Element.printAttribute a).toList =
      ' ' :: ((a.1.toList ++ ['=']) ++ '"' :: (a.2.toList ++ ['"'])) := by
  simp [Element.printAttribute]

/-- One attribute takes the machine to where the next may come. -/
theorem Scans.attribute {a : String × String} (hm : m.AtEnd t)
    (hkey : isPlainName a.1.toList = true) (hvalue : ∀ c ∈ a.2.toList, c ≠ '<' ∧ c ≠ '"') :
    Scans m (Element.printAttribute a).toList
      (.tag ⟨t.name, rawAttribute a :: t.attributes⟩ false) [] := by
  have hspace : m.step ' ' = some (.tag t true, []) := hm ' ' (by decide)
  rw [toList_printAttribute]
  exact Scans.cons (by decide) hspace ((Scans.key hkey).append (Scans.value hvalue))

/-- All attributes of a tag. -/
theorem Scans.attributes {as : List (String × String)} (hm : m.AtEnd t)
    (hkeys : ∀ a ∈ as, isPlainName a.1.toList = true)
    (hvalues : ∀ a ∈ as, ∀ c ∈ a.2.toList, c ≠ '<' ∧ c ≠ '"') :
    ∃ m', Scans m (as.flatMap fun a => (Element.printAttribute a).toList) m' [] ∧
      m'.AtEnd ⟨t.name, (as.map rawAttribute).reverse ++ t.attributes⟩ := by
  induction as generalizing m t with
  | nil => exact ⟨m, Scans.nil, hm⟩
  | cons a as ih =>
      have hfirst := Scans.attribute hm (hkeys a List.mem_cons_self) (hvalues a List.mem_cons_self)
      obtain ⟨m', hrest, hend⟩ := ih (Mode.atEnd_tag _ false)
        (fun b hb => hkeys b (List.mem_cons_of_mem _ hb))
        (fun b hb => hvalues b (List.mem_cons_of_mem _ hb))
      refine ⟨m', ?_, ?_⟩
      · simpa using hfirst.append hrest
      · simpa using hend

/-- A start tag up to where it ends. -/
theorem Scans.startTag {name : String} {as : List (String × String)}
    (hname : isPlainName name.toList = true) (hkeys : ∀ a ∈ as, isPlainName a.1.toList = true)
    (hvalues : ∀ a ∈ as, ∀ c ∈ a.2.toList, c ≠ '<' ∧ c ≠ '"') (read : List Char) :
    ∃ m', Scans (.text read)
        ('<' :: (name.toList ++ as.flatMap fun a => (Element.printAttribute a).toList)) m'
        (Mode.run read) ∧
      m'.AtEnd ⟨name.toList, (as.map rawAttribute).reverse⟩ := by
  obtain ⟨m', has, hend⟩ := Scans.attributes (Mode.atEnd_startName hname) hkeys hvalues
  refine ⟨m', ?_, by simpa using hend⟩
  have hless : (Mode.text read).step '<' = some (.less, Mode.run read) := by
    simp [Mode.step_text]
  simpa using Scans.cons (by decide) hless ((Scans.startName hname).append has)

/-- An end tag. -/
theorem Scans.endTag {name : List Char} (h : isPlainName name = true) (read : List Char) :
    Scans (.text read) ('<' :: '/' :: (name ++ ['>'])) (.text [])
      (.endTag name :: Mode.run read) := by
  have hless : (Mode.text read).step '<' = some (.less, Mode.run read) := by
    simp [Mode.step_text]
  have hslash : Mode.less.step '/' = some (.endName [], []) := by
    simp [Mode.step_less, Mode.stay]
  have hname : Scans (.endName []) name (.endName (name.reverse ++ [])) [] := by
    refine Scans.collect ?_ []
    intro c hc
    have hchar := isNameChar_of_mem h hc
    have h₁ := ne_of_isNameChar (d := '>') hchar (by decide)
    refine ⟨ne_of_isNameChar hchar (by decide), ?_⟩
    intro read
    simp [Mode.step_endName, Mode.stay, isSpace_eq_false hchar, h₁]
  have hclose : Scans (.endName (name.reverse ++ [])) ['>'] (.text []) [.endTag name] := by
    refine Scans.one (by decide) ?_
    simp [Mode.step_endName]
  simpa using Scans.cons (by decide) hless (Scans.cons (by decide) hslash (hname.append hclose))

/-- A run of text. -/
theorem Scans.text {s : String} (h : Inert s) :
    Scans (.text []) s.toList (.text s.toList.reverse) [] := by
  have hcollect : Scans (.text []) s.toList (.text (s.toList.reverse ++ [])) [] := by
    refine Scans.collect ?_ []
    intro c hc
    have h₁ := ne_of_isInert (d := '<') (h c hc) (by decide)
    refine ⟨ne_of_isInert (h c hc) (by decide), ?_⟩
    intro read
    simp [Mode.step_text, Mode.stay, h₁]
  simpa using hcollect

/-! ### Elements -/

namespace Element

mutual

/-- The markup of an element, in order. -/
def markups : Element → List Markup
  | node name attributes text children =>
    let start := Markup.startTag name.toList (attributes.map rawAttribute)
    if text.isEmpty && children.isEmpty then [start true]
    else start false :: (Mode.run text.toList.reverse ++ markupsOf children ++
      [.endTag name.toList])

/-- The markup of some elements, one after another. -/
def markupsOf : List Element → List Markup
  | [] => []
  | e :: rest => e.markups ++ markupsOf rest

end

theorem toList_print (e : Element) : e.print.toList = e.pieces.flatMap String.toList :=
  String.toList_join

/-- The characters of an element that closes itself. -/
theorem toList_print_closed {name : String} {as : List (String × String)} {text : String}
    {children : List Element} (h : (text.isEmpty && children.isEmpty) = true) :
    (node name as text children).print.toList =
      ('<' :: (name.toList ++ as.flatMap fun a => (printAttribute a).toList)) ++ ['/', '>'] := by
  simp [toList_print, pieces, h, List.flatMap_map]

/-- The characters of an element with text or children. -/
theorem toList_print_open {name : String} {as : List (String × String)} {text : String}
    {children : List Element} (h : ¬ (text.isEmpty && children.isEmpty) = true) :
    (node name as text children).print.toList =
      ('<' :: (name.toList ++ as.flatMap fun a => (printAttribute a).toList)) ++
        '>' :: (text.toList ++ ((piecesOf children).flatMap String.toList ++
          '<' :: '/' :: (name.toList ++ ['>']))) := by
  simp [toList_print, pieces, h, List.flatMap_map]

end Element

/-- Elements one after another, and the end tag of the element around them. -/
theorem Scans.elements {es : List Element} {name : List Char} (hname : isPlainName name = true)
    (hes : ∀ e ∈ es, ∀ read,
      Scans (.text read) e.print.toList (.text []) (e.markups.reverse ++ Mode.run read))
    (read : List Char) :
    Scans (.text read) ((Element.piecesOf es).flatMap String.toList ++ '<' :: '/' :: (name ++ ['>']))
      (.text []) (.endTag name :: ((Element.markupsOf es).reverse ++ Mode.run read)) := by
  induction es generalizing read with
  | nil => exact Scans.endTag hname read
  | cons e es ih =>
      have hfirst := hes e List.mem_cons_self read
      have hrest := ih (fun d hd => hes d (List.mem_cons_of_mem _ hd)) []
      have hall := hfirst.append hrest
      simpa [Element.toList_print, Element.piecesOf, Element.markupsOf, Mode.run] using hall

/-- **A legible element is cut into its markup**, wherever it stands in text. -/
theorem Scans.element {e : Element} (h : e.Formed Legible) (read : List Char) :
    Scans (.text read) e.print.toList (.text []) (e.markups.reverse ++ Mode.run read) := by
  induction h generalizing read with
  | @node name as text children hname hkeys hvalues _ _ htext _ ih =>
      obtain ⟨m, hstart, hend⟩ := Scans.startTag hname hkeys
        (fun a ha c hc => ((hvalues a ha).characters c hc).2) read
      by_cases hclosed : (text.isEmpty && children.isEmpty) = true
      · have hslash : m.step '/' = some (.closing _, []) := hend '/' (by decide)
        have hangle : (Mode.closing ⟨name.toList, (as.map rawAttribute).reverse⟩).step '>' =
            some (.text [], [.startTag name.toList (as.map rawAttribute) true]) := by
          simp [Mode.step_closing, OpenTag.markup]
        have htag := hstart.append
          (Scans.cons (by decide) hslash (Scans.one (by decide) hangle))
        rw [Element.toList_print_closed hclosed]
        simpa [Element.markups, hclosed] using htag
      · have hangle : m.step '>' =
            some (.text [], [.startTag name.toList (as.map rawAttribute) false]) := by
          simpa [Mode.step.betweenAttributes, OpenTag.markup] using hend '>' (by decide)
        have hinside := (Scans.text htext).append (Scans.elements hname ih text.toList.reverse)
        have htag := hstart.append (Scans.cons (by decide) hangle hinside)
        rw [Element.toList_print_open hclosed]
        simpa [Element.markups, hclosed, Mode.reverse_run] using htag

/-- The markup of a document that is one legible element. -/
theorem markups?_print {e : Element} (h : e.Formed Legible) :
    markups? e.print.toList = some e.markups := by
  have hscan := Scans.element h [] []
  simp only [markups?, Scanner.start]
  rw [hscan]
  simp [Scanner.finish, Mode.run]

end Tromp.Xml
