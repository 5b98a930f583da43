import Mathlib.Data.List.Nodup
import Tromp.Proofs.Xml.Scanning

/-!
# Printed elements are read back

The markup of a legible element builds that element again, with its values as they are read
(`Element.read`).  Inside an element that is open the result is one more child; on its own it is the
root of the document.  Both are the same fact about `Builder.add`, and the induction over the element
goes through it: the children of an element are built while the element is open.

So a document that is a printed legible element has what is read of that element as its root
(`root?_print`).  What is read of a plain element is that element, with nothing lost or added
(`Element.read_eq_self`).
-/

namespace Tromp.Xml

/-! ### Texts that hold no references -/

variable {cs : List Char} {raw : Char → Char} {skipsUnknown : Bool}

/-- Without an ampersand there is nothing to replace. -/
theorem expandReferences_eq (h : ∀ c ∈ cs, c ≠ '&' ∧ raw c = c) :
    expandReferences raw skipsUnknown cs = some cs := by
  have hfold : ∀ read, cs.foldlM (Expansion.step raw skipsUnknown) ⟨read, none⟩ =
      some ⟨cs.reverse ++ read, none⟩ := by
    induction cs with
    | nil => intro read; rfl
    | cons c cs ih =>
        intro read
        obtain ⟨hc, hraw⟩ := h c List.mem_cons_self
        have hrest := ih (fun d hd => h d (List.mem_cons_of_mem _ hd)) (c :: read)
        simpa [Expansion.step, hc, hraw] using hrest
  simp [expandReferences, hfold]

/-- The only white space among inert characters is the space. -/
theorem isSpace_eq_false_of_isInert {c : Char} (h : isInert c = true) (hc : c ≠ ' ') :
    isSpace c = false := by
  simp only [isInert, Bool.and_eq_true, Bool.or_eq_true, beq_iff_eq] at h
  obtain ⟨⟨-, hspace⟩, -⟩ := h
  rcases hspace with heq | hspace
  · contradiction
  · simpa using hspace

/-- The value of an attribute is read as it is written. -/
theorem attributeValue?_eq (h : ∀ c ∈ cs, isInert c = true) :
    attributeValue? skipsUnknown cs = some cs := by
  refine expandReferences_eq ?_
  intro c hc
  refine ⟨ne_of_isInert (h c hc) (by decide), ?_⟩
  by_cases hspace : c = ' '
  · simp [hspace]
  · simp [isSpace_eq_false_of_isInert (h c hc) hspace]

/-- Without a carriage return line ends stay as they are. -/
theorem lineFeeds_eq (h : ∀ c ∈ cs, c ≠ '\r') : lineFeeds false cs = cs := by
  induction cs with
  | nil => rfl
  | cons c cs ih =>
      have hc := h c List.mem_cons_self
      simpa [lineFeeds, hc] using ih fun d hd => h d (List.mem_cons_of_mem _ hd)

/-- What is read of the value of an attribute. -/
def readValue (s : String) : String :=
  String.ofList ((attributeValue? false (lineFeeds false s.toList)).getD [])

theorem Legible.attributeValue?_eq {s : String} (h : Legible s) :
    attributeValue? false (lineFeeds false s.toList) = some (readValue s).toList := by
  obtain ⟨value, hvalue⟩ := Option.isSome_iff_exists.mp h.references
  simp [readValue, hvalue]

theorem Inert.attributeValue?_eq {s : String} (h : Inert s) :
    attributeValue? false (lineFeeds false s.toList) = some s.toList := by
  rw [lineFeeds_eq fun c hc => ne_of_isInert (h c hc) (by decide)]
  exact Xml.attributeValue?_eq h

theorem Inert.readValue_eq {s : String} (h : Inert s) : readValue s = s := by
  simp [readValue, h.attributeValue?_eq]

theorem isDocumentChar_of_isInert {c : Char} (h : isInert c = true) : isDocumentChar c = true := by
  simp only [isInert, Bool.and_eq_true] at h
  exact h.1.1

/-- What stands for itself can be read. -/
theorem Inert.legible {s : String} (h : Inert s) : Legible s where
  characters c hc := ⟨isDocumentChar_of_isInert (h c hc), ne_of_isInert (h c hc) (by decide),
    ne_of_isInert (h c hc) (by decide)⟩
  references := by rw [h.attributeValue?_eq, Option.isSome_some]

/-- Character data is read as it is written. -/
theorem characterData?_eq (h : ∀ c ∈ cs, isInert c = true) : characterData? cs = some cs := by
  -- The end of a literal section would need an angle bracket.
  have hends : ∀ count, (cs.foldl (fun (s : Nat × Bool) c =>
      if c = ']' then (s.1 + 1, s.2) else (0, s.2 || (c = '>' && 2 ≤ s.1))) (count, false)).2 =
      false := by
    induction cs with
    | nil => intro count; rfl
    | cons c cs ih =>
        intro count
        have hc : c ≠ '>' := ne_of_isInert (h c List.mem_cons_self) (by decide)
        have hrest := ih fun d hd => h d (List.mem_cons_of_mem _ hd)
        rw [List.foldl_cons]
        split
        · exact hrest (count + 1)
        · simpa [hc] using hrest 0
  have hreferences : expandReferences id false cs = some cs := by
    refine expandReferences_eq ?_
    intro c hc
    exact ⟨ne_of_isInert (h c hc) (by decide), rfl⟩
  simp [characterData?, hends, hreferences]

/-! ### Names without tags -/

variable {name : String} {as : List (String × String)} {bindings : Bindings}

theorem splitName_of_plain (h : isPlainName name.toList = true) : splitName name = ("", name) := by
  rw [splitName, dropWhile_ne_colon fun c hc => isNameChar_of_mem h hc]

/-- A name without a tag is in no namespace. -/
theorem Bindings.expand?_of_plain (h : isPlainName name.toList = true) :
    bindings.expand? name = some ("", name) := by
  simp [Bindings.expand?, splitName_of_plain h]

/-- The only plain key that binds a tag binds the empty one. -/
theorem Bindings.target?_of_plain (h : isPlainName name.toList = true) :
    Bindings.target? name = if name = "xmlns" then some "" else none := by
  unfold Bindings.target?
  rw [splitName_of_plain h]
  rfl

/-- The attributes of a plain element bind nothing that may not be bound. -/
theorem Bindings.exists_extend? (outer : Bindings)
    (hkeys : ∀ a ∈ as, isPlainName a.1.toList = true)
    (hallowed : ∀ a ∈ as, a.1 = "xmlns" → Bindings.allowed "" a.2 = true) :
    ∃ inner, outer.extend? as = some inner := by
  induction as generalizing outer with
  | nil => exact ⟨outer, rfl⟩
  | cons a as ih =>
      have hrest := fun b => ih b (fun d hd => hkeys d (List.mem_cons_of_mem _ hd))
        (fun d hd => hallowed d (List.mem_cons_of_mem _ hd))
      have htarget := Bindings.target?_of_plain (hkeys a List.mem_cons_self)
      by_cases hbinds : a.1 = "xmlns"
      · rw [if_pos hbinds] at htarget
        have hallows := hallowed a List.mem_cons_self hbinds
        obtain ⟨inner, hinner⟩ := hrest (("", a.2) :: outer)
        refine ⟨inner, ?_⟩
        simpa [Bindings.extend?, htarget, hallows] using hinner
      · rw [if_neg hbinds] at htarget
        obtain ⟨inner, hinner⟩ := hrest outer
        refine ⟨inner, ?_⟩
        simpa [Bindings.extend?, htarget] using hinner

/-- A partial map that succeeds everywhere is a map. -/
theorem mapM_eq_some_map {α β : Type} {f : α → Option β} {g : α → β} {l : List α}
    (h : ∀ a ∈ l, f a = some (g a)) : l.mapM f = some (l.map g) := by
  induction l with
  | nil => rfl
  | cons a l ih =>
      have hrest := ih fun b hb => h b (List.mem_cons_of_mem _ hb)
      simp [h a List.mem_cons_self, hrest]

/-- Names without tags are accepted under all bindings. -/
theorem Bindings.accept_of_plain (hname : isPlainName name.toList = true)
    (hkeys : ∀ a ∈ as, isPlainName a.1.toList = true) (hnodup : (as.map Prod.fst).Nodup) :
    bindings.accept name as = true := by
  let keys := as.filter fun a => (Bindings.target? a.1).isNone
  have hmap : keys.mapM (fun a => bindings.expand? a.1) =
      some (keys.map fun a => ("", a.1)) := by
    refine mapM_eq_some_map ?_
    intro a ha
    exact Bindings.expand?_of_plain (hkeys a (List.mem_filter.mp ha).1)
  have hdistinct : (keys.map fun a => ("", a.1)).Nodup := by
    have hkeep : (keys.map Prod.fst).Nodup := hnodup.sublist (List.filter_sublist.map Prod.fst)
    simpa [List.map_map, Function.comp_def] using
      hkeep.map (f := Prod.mk "") fun _ _ h => congrArg Prod.snd h
  simp only [Bindings.accept, Bindings.expand?_of_plain hname]
  simp only [keys] at hmap hdistinct
  simp [hmap, hdistinct]

/-! ### What is read of an element -/

/-- What is read of an attribute. -/
def readAttribute (a : String × String) : String × String := (a.1, readValue a.2)

theorem map_fst_readAttribute (as : List (String × String)) :
    (as.map readAttribute).map Prod.fst = as.map Prod.fst := by
  rw [List.map_map]
  rfl

namespace Element

mutual

/-- What is read of an element: the values of its attributes may hold references. -/
def read : Element → Element
  | node name attributes text children =>
    .node name (attributes.map readAttribute) text (readOf children)

/-- What is read of some elements. -/
def readOf : List Element → List Element
  | [] => []
  | e :: rest => e.read :: readOf rest

end

theorem readOf_eq_map (es : List Element) : readOf es = es.map read := by
  induction es with
  | nil => rfl
  | cons e es ih => rw [readOf, ih, List.map_cons]

theorem Formed.mono {V W : String → Prop} {e : Element} (h : e.Formed V) (hV : ∀ s, V s → W s) :
    e.Formed W := by
  induction h with
  | node hname hkeys hvalues hnodup hallowed htext _ ih =>
      exact .node hname hkeys (fun a ha => hV _ (hvalues a ha)) hnodup hallowed htext ih

/-- A plain element is read as it is written. -/
theorem read_eq_self {e : Element} (h : e.Plain) : e.read = e := by
  induction h with
  | @node name as text children _ _ hvalues _ _ _ _ ih =>
      have hattributes : as.map readAttribute = as.map id := by
        apply List.map_congr_left
        intro a ha
        rw [readAttribute, (hvalues a ha).readValue_eq, id]
      have hchildren : children.map read = children.map id := List.map_congr_left ih
      rw [read, hattributes, readOf_eq_map, hchildren, List.map_id, List.map_id]

end Element

/-! ### Building -/

namespace Builder

variable {b : Builder}

/-- Without a document type attributes are read as they stand in their tag. -/
theorem attributes?_eq (htype : b.type = none) (hvalues : ∀ a ∈ as, Legible a.2)
    (hnodup : (as.map Prod.fst).Nodup) :
    b.attributes? name (as.map rawAttribute) = some (as.map readAttribute) := by
  have hrules : b.rules = .plain := by simp [rules, htype]
  have hone : ∀ r ∈ as.map rawAttribute, (do
      let value ← attributeValue? b.rules.skipsUnknown r.2
      let key := String.ofList r.1
      return (key, String.ofList (b.rules.adjust name key value))) =
        some (String.ofList r.1, String.ofList ((attributeValue? false r.2).getD [])) := by
    intro r hr
    obtain ⟨a, ha, rfl⟩ := List.mem_map.mp hr
    have hvalue : attributeValue? false (rawAttribute a).2 = some (readValue a.2).toList :=
      (hvalues a ha).attributeValue?_eq
    simp only [hrules, DocumentType.plain]
    rw [hvalue]
    simp [DocumentType.adjust, DocumentType.rule?]
  have hback : ((as.map rawAttribute).map fun r =>
      (String.ofList r.1, String.ofList ((attributeValue? false r.2).getD []))) =
        as.map readAttribute := by
    simp [rawAttribute, readAttribute, readValue, Function.comp_def]
  have hnodup' : ((as.map readAttribute).map Prod.fst).Nodup := by
    rwa [map_fst_readAttribute]
  simp only [attributes?]
  rw [mapM_eq_some_map hone, hback]
  simp only [Option.bind_eq_bind, Option.bind_some, hrules, DocumentType.defaults,
    DocumentType.plain, List.filterMap_nil, List.foldl_nil, if_pos hnodup']

/-- The start tag of a legible element is opened wherever an element may stand. -/
theorem exists_open? (htype : b.type = none) (hroom : b.opened ≠ [] ∨ b.root = none)
    (hname : isPlainName name.toList = true) (hkeys : ∀ a ∈ as, isPlainName a.1.toList = true)
    (hvalues : ∀ a ∈ as, Legible a.2) (hnodup : (as.map Prod.fst).Nodup)
    (hallowed : ∀ a ∈ as, a.1 = "xmlns" → Inert a.2 ∧ Bindings.allowed "" a.2 = true) :
    ∃ bindings, b.open? name (as.map rawAttribute) =
      some ⟨name, as.map readAttribute, bindings, "", []⟩ := by
  have hattributes : b.attributes? name (as.map rawAttribute) = some (as.map readAttribute) :=
    attributes?_eq htype hvalues hnodup
  have hkeys' : ∀ a ∈ as.map readAttribute, isPlainName a.1.toList = true := by
    intro a ha
    obtain ⟨own, hown, rfl⟩ := List.mem_map.mp ha
    exact hkeys own hown
  have hallowed' : ∀ a ∈ as.map readAttribute, a.1 = "xmlns" → Bindings.allowed "" a.2 = true := by
    intro a ha hkey
    obtain ⟨own, hown, rfl⟩ := List.mem_map.mp ha
    obtain ⟨hinert, hbound⟩ := hallowed own hown hkey
    rwa [readAttribute, hinert.readValue_eq]
  have haccept : ∀ inner : Bindings, inner.accept name (as.map readAttribute) = true := by
    intro inner
    apply Bindings.accept_of_plain hname hkeys'
    rwa [map_fst_readAttribute]
  cases hopened : b.opened with
  | nil =>
      have hroot : b.root = none := hroom.resolve_left fun h => h hopened
      obtain ⟨inner, hinner⟩ := Bindings.exists_extend? [("xml", xmlNamespace)] hkeys' hallowed'
      exact ⟨inner, by simp [open?, hattributes, hopened, hinner, hroot, haccept]⟩
  | cons parent rest =>
      obtain ⟨inner, hinner⟩ := Bindings.exists_extend? parent.bindings hkeys' hallowed'
      exact ⟨inner, by simp [open?, hattributes, hopened, hinner, haccept]⟩

/-- The text of an open element that has none yet. -/
theorem foldlM_run {e : OpenElement} {rest : List OpenElement} {s : String} (h : Inert s)
    (hopened : b.opened = e :: rest) (hstarted : b.started = true) (hempty : e.text = "") :
    (Mode.run s.toList.reverse).foldlM Builder.step b =
      some { b with opened := { e with text := s } :: rest } := by
  obtain ⟨opened, root, type, standsAlone, started⟩ := b
  obtain rfl : opened = e :: rest := hopened
  obtain rfl : started = true := hstarted
  by_cases hs : s = ""
  · subst hs
    simp [Mode.run, ← hempty]
  · have hdata : characterData? s.toList = some s.toList := characterData?_eq h
    simp [Mode.run, hs, step, addText?, hdata, hempty]

/-- The elements inside an open element. -/
theorem foldlM_markupsOf {es : List Element} {e : OpenElement} {rest : List OpenElement}
    (hes : ∀ d ∈ es, ∀ b : Builder, b.type = none → b.opened ≠ [] ∨ b.root = none →
      d.markups.foldlM Builder.step b = some ({ b with started := true }.add d.read))
    (htype : b.type = none) (hopened : b.opened = e :: rest) (hstarted : b.started = true) :
    (Element.markupsOf es).foldlM Builder.step b =
      some { b with
        opened := { e with children := (Element.readOf es).reverse ++ e.children } :: rest } := by
  induction es generalizing b e with
  | nil => simp [Element.markupsOf, Element.readOf, ← hopened]
  | cons d es ih =>
      have hfirst := hes d List.mem_cons_self b htype (Or.inl (by simp [hopened]))
      rw [Element.markupsOf, List.foldlM_append, hfirst]
      have hrest := ih (b := { b with started := true }.add d.read)
        (e := { e with children := d.read :: e.children })
        (fun d hd => hes d (List.mem_cons_of_mem _ hd)) (by simp [add, hopened, htype])
        (by simp [add, hopened]) (by simp [add, hopened])
      simpa [add, hopened, Element.readOf, ← hstarted] using hrest

/-- **The markup of a legible element adds what is read of it** to what has been built. -/
theorem foldlM_markups {e : Element} (h : e.Formed Legible) (htype : b.type = none)
    (hroom : b.opened ≠ [] ∨ b.root = none) :
    e.markups.foldlM Builder.step b = some ({ b with started := true }.add e.read) := by
  induction h generalizing b with
  | @node name as text children hname hkeys hvalues hnodup hallowed htext _ ih =>
      obtain ⟨bindings, hopen⟩ := exists_open? (b := { b with started := true }) htype hroom hname
        hkeys hvalues hnodup hallowed
      by_cases hclosed : (text.isEmpty && children.isEmpty) = true
      · obtain ⟨hnone, hnil⟩ := Bool.and_eq_true_iff.mp hclosed
        obtain rfl := String.isEmpty_iff.mp hnone
        obtain rfl := List.isEmpty_iff.mp hnil
        simp [Element.markups, Element.read, Element.readOf, step, hopen, OpenElement.close]
      · let inside : OpenElement := ⟨name, as.map readAttribute, bindings, text, []⟩
        have hstart : step b (.startTag name.toList (as.map rawAttribute) false) =
            some { b with
              opened := ⟨name, as.map readAttribute, bindings, "", []⟩ :: b.opened
              started := true } := by
          simp [step, hopen]
        have htexts := foldlM_run
          (b := { b with
            opened := ⟨name, as.map readAttribute, bindings, "", []⟩ :: b.opened
            started := true })
          htext rfl rfl rfl
        have hchildren := foldlM_markupsOf (e := inside)
          (b := { b with opened := inside :: b.opened, started := true }) (fun d hd b => ih d hd)
          htype rfl rfl
        have hend : step
            { b with
              opened :=
                { inside with children := (Element.readOf children).reverse ++ [] } :: b.opened
              started := true } (.endTag name.toList) =
            some ({ b with started := true }.add (Element.node name as text children).read) := by
          simp [step, inside, OpenElement.close, Element.read]
        rw [Element.markups, if_neg hclosed, List.foldlM_cons, hstart]
        simp only [Option.bind_eq_bind, Option.bind_some, List.foldlM_append]
        rw [htexts]
        simp only [Option.bind_some]
        rw [hchildren]
        simpa [inside] using hend

end Builder

/-! ### Whole documents -/

/-- What lies in one of some ranges does not lie beyond all of them. -/
theorem le_of_inRanges {ranges : List (Nat × Nat)} {high n : Nat}
    (hranges : ∀ r ∈ ranges, r.2 ≤ high) (h : inRanges ranges n = true) : n ≤ high := by
  obtain ⟨r, hr, hin⟩ := List.any_eq_true.mp h
  have hhigh := hranges r hr
  simp only [Bool.and_eq_true, decide_eq_true_eq] at hin
  omega

/-- The characters of names may stand in a document. -/
theorem isDocumentChar_of_isNameChar {c : Char} (h : isNameChar c = true) :
    isDocumentChar c = true := by
  have hbounds : 32 ≤ c.toNat ∧ c.toNat ≤ 0xd7a3 := by
    by_cases hsmall : c.toNat < 32
    · have hnone : ∀ n < 32, isNameChar (Char.ofNat n) = false := by decide
      have := hnone c.toNat hsmall
      rw [Char.ofNat_toNat, h] at this
      contradiction
    · refine ⟨by omega, ?_⟩
      unfold isNameChar at h
      split at h
      · omega
      · rcases Bool.or_eq_true_iff.mp h with hletter | hcontinuing
        · exact le_of_inRanges (by decide +kernel) hletter
        · exact le_of_inRanges (by decide +kernel) hcontinuing
  unfold isDocumentChar
  simp only [Bool.or_eq_true, Bool.and_eq_true, beq_iff_eq, decide_eq_true_eq, bne_iff_ne]
  omega

/-- The characters of a legible element may stand in a document. -/
theorem all_isDocumentChar_print {e : Element} (h : e.Formed Legible) :
    e.print.toList.all isDocumentChar = true := by
  induction h with
  | @node name as text children hname hkeys hvalues _ _ htext _ ih =>
      have hplain : ∀ s : String, isPlainName s.toList = true →
          s.toList.all isDocumentChar = true := by
        intro s hs
        exact List.all_eq_true.mpr fun c hc =>
          isDocumentChar_of_isNameChar (isNameChar_of_mem hs hc)
      have hinert : ∀ s, Inert s → s.toList.all isDocumentChar = true := by
        intro s hs
        exact List.all_eq_true.mpr fun c hc => isDocumentChar_of_isInert (hs c hc)
      have hattributes : (as.flatMap fun a => (Element.printAttribute a).toList).all
          isDocumentChar = true := by
        refine List.all_flatMap.trans (List.all_eq_true.mpr ?_)
        intro a ha
        have hvalue : a.2.toList.all isDocumentChar = true :=
          List.all_eq_true.mpr fun c hc => ((hvalues a ha).characters c hc).1
        rw [toList_printAttribute]
        simp [hplain a.1 (hkeys a ha), hvalue, isDocumentChar]
      have hchildren : ((Element.piecesOf children).flatMap String.toList).all
          isDocumentChar = true := by
        clear * - ih
        induction children with
        | nil => rfl
        | cons e es ihs =>
            have hrest := ihs fun d hd => ih d (List.mem_cons_of_mem _ hd)
            have hfirst := ih e List.mem_cons_self
            rw [Element.toList_print] at hfirst
            rw [Element.piecesOf, List.flatMap_append, List.all_append, hfirst, hrest]
            rfl
      by_cases hclosed : (text.isEmpty && children.isEmpty) = true
      · rw [Element.toList_print_closed hclosed]
        simp [hplain name hname, hattributes, isDocumentChar]
      · rw [Element.toList_print_open hclosed]
        simp [hplain name hname, hinert text htext, hattributes, hchildren, isDocumentChar]

/-- A printed element begins with its tag. -/
theorem exists_print_eq_cons (e : Element) : ∃ cs, e.print.toList = '<' :: cs := by
  cases e with
  | node name as text children =>
      by_cases hclosed : (text.isEmpty && children.isEmpty) = true
      · exact ⟨_, Element.toList_print_closed hclosed⟩
      · exact ⟨_, Element.toList_print_open hclosed⟩

/-- **A printed legible element is read back**, with the values that its attributes stand for. -/
theorem root?_print {e : Element} (h : e.Formed Legible) : root? e.print = some e.read := by
  have hbuild : e.markups.foldlM Builder.step .start =
      some ⟨[], some e.read, none, false, true⟩ :=
    Builder.foldlM_markups h rfl (Or.inr rfl)
  have hmarkups := markups?_print h
  have hall := all_isDocumentChar_print h
  obtain ⟨cs, hcs⟩ := exists_print_eq_cons e
  rw [hcs] at hmarkups hall
  unfold root?
  rw [hcs]
  simp [hmarkups, hall, hbuild, Builder.finish]

/-- **A printed plain element is read back** as it is, with nothing lost or added. -/
theorem root?_print_plain {e : Element} (h : e.Plain) : root? e.print = some e := by
  rw [root?_print (h.mono fun _ => Inert.legible), Element.read_eq_self h]

end Tromp.Xml
