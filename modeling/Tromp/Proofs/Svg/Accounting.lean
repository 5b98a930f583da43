import Tromp.Proofs.Svg.Paint

/-!
# Every line is accounted for

The reader walks through a document and carries along the translation that holds where it is.  What
it finds can be told without the walk: a document is a list of *occurrences*, which are its elements
in their order, each with the elements around it, and a line is moved by the sum of the translations
on the way to it.

1.  What the walk meets is what the occurrences hold, one after another
    (`Svg.visits_eq_flatMap`).
2.  Each line gives either its end points or a warning with its number, and each transform that
    cannot be read gives a warning (`Svg.fst_readLines`, `Svg.skips_readLines`,
    `Svg.transforms_readLines`).
3.  A document in which one element is changed, but neither its name nor what is inside it, has the
    same lines before that element and after those inside it (`Svg.results_plug`).
4.  A transform that cannot be read might as well not be there (`Svg.results_mended`).
-/

namespace Tromp.Svg

open Xml

/-! ### Occurrences -/

/-- The translation that an element adds to those around it: none if its transform cannot be
read. -/
def contribution (e : Element) : Number × Number :=
  match translation (e.attribute? "transform") with
  | .ok v => v
  | .error _ => (.real 0.0, .real 0.0)

/-- The transform of an element, if it cannot be read. -/
def malformed? (e : Element) : Option String :=
  match translation (e.attribute? "transform") with
  | .ok _ => none
  | .error _ => some ((e.attribute? "transform").getD "")

/-- The sum of what some elements contribute, one after another. -/
def total (es : List Element) : Number × Number :=
  es.foldl (fun v e => (v.1 + (contribution e).1, v.2 + (contribution e).2))
    (.real 0.0, .real 0.0)

/-- An element of a document and the elements around it, outermost first. -/
structure Occurrence where
  around : List Element
  element : Element

namespace Occurrence

/-- The sum of the translations on the way to an element and of its own. -/
def offset (o : Occurrence) : Number × Number := total (o.around ++ [o.element])

/-- Whether the element is a line. -/
def isLine (o : Occurrence) : Bool := o.element.localName == "line"

/-- The end points of a line, or why it cannot be read. -/
def ends (o : Occurrence) : Except LineFault (Ends Number) := endsOf o.element o.offset.1 o.offset.2

end Occurrence

mutual

/-- The elements of a document in their order: an element, and then what is inside it. -/
def occurrences (around : List Element) : Element → List Occurrence
  | .node name attributes text children =>
    ⟨around, .node name attributes text children⟩ ::
      occurrencesOf (around ++ [.node name attributes text children]) children

/-- The elements of some documents that stand in the same elements, one after another. -/
def occurrencesOf (around : List Element) : List Element → List Occurrence
  | [] => []
  | e :: rest => occurrences around e ++ occurrencesOf around rest

end

/-- The lines of a document in their order, nested ones included. -/
def lines (root : Element) : List Occurrence := (occurrences [] root).filter Occurrence.isLine

/-- What becomes of each line of a document. -/
def results (root : Element) : List (Except LineFault (Ends Number)) :=
  (lines root).map Occurrence.ends

/-- The line that a warning says is skipped, by its number, and the reason. -/
def Warning.skip? : Warning → Option (Nat × LineFault)
  | .skippedLine index fault => some (index, fault)
  | _ => none

/-- The transform that a warning is about. -/
def Warning.transform? : Warning → Option String
  | .malformedTransform transform => some transform
  | _ => none

/-- The end points of a line are read exactly if its four coordinates are, and they are these
coordinates, moved; but a line is not read if one of them is not finite. -/
theorem endsOf_eq_ok_iff {e : Element} {dx dy : Number} {ends : Ends Number} :
    endsOf e dx dy = .ok ends ↔
      ∃ x1 y1 x2 y2, coordinateOf e "x1" = .ok x1 ∧ coordinateOf e "y1" = .ok y1 ∧
        coordinateOf e "x2" = .ok x2 ∧ coordinateOf e "y2" = .ok y2 ∧
        ends = ⟨x1 + dx, y1 + dy, x2 + dx, y2 + dy⟩ ∧
        ∀ x ∈ [ends.x1, ends.y1, ends.x2, ends.y2], x.isFinite = true := by
  simp only [endsOf, Guard.bind_eq_ok]
  constructor
  · intro h
    obtain ⟨x1, hx1, y1, hy1, x2, hx2, y2, hy2, h⟩ := h
    split at h
    next hfinite =>
      obtain rfl := Except.ok.inj h
      exact ⟨x1, y1, x2, y2, hx1, hy1, hx2, hy2, rfl, List.all_eq_true.mp hfinite⟩
    next => cases h
  · intro h
    obtain ⟨x1, y1, x2, y2, hx1, hy1, hx2, hy2, rfl, hfinite⟩ := h
    exact ⟨x1, hx1, y1, hy1, x2, hx2, y2, hy2, if_pos (List.all_eq_true.mpr hfinite)⟩

/-! ### The walk through a document -/

/-- The result of a line, if a line is what is met. -/
def Visit.ends? : Visit → Option (Except LineFault (Ends Number))
  | .line e dx dy => some (endsOf e dx dy)
  | .malformed _ => none

/-- The transform that cannot be read, if it is what is met. -/
def Visit.transform? : Visit → Option String
  | .malformed transform => some transform
  | .line .. => none

/-- What is met in an element itself. -/
def Occurrence.visits (o : Occurrence) : List Visit :=
  (malformed? o.element).toList.map .malformed ++
    if o.isLine then [.line o.element o.offset.1 o.offset.2] else []

/-- The reader adds what an element contributes, and reports what it cannot read. -/
theorem translationIn_eq (e : Element) (dx dy : Number) :
    translationIn e dx dy = ((dx + (contribution e).1, dy + (contribution e).2),
      (malformed? e).toList.map .malformed) := by
  unfold translationIn contribution malformed?
  cases translation (e.attribute? "transform") <;> rfl

theorem total_append (around : List Element) (e : Element) :
    total (around ++ [e]) =
      ((total around).1 + (contribution e).1, (total around).2 + (contribution e).2) := by
  simp [total]

mutual

/-- **What the walk meets** in an element is what the elements there hold, one after another. -/
theorem visits_eq_flatMap (around : List Element) (e : Element) :
    visits (total around).1 (total around).2 e =
      (occurrences around e).flatMap Occurrence.visits := by
  cases e with
  | node name attributes text children =>
      have hchildren := visitsOf_eq_flatMap (around ++ [.node name attributes text children])
        children
      rw [total_append] at hchildren
      rw [Svg.visits, occurrences, List.flatMap_cons, ← hchildren, translationIn_eq,
        Occurrence.visits, Occurrence.offset, total_append]
      simp only [Occurrence.isLine, beq_iff_eq]

theorem visitsOf_eq_flatMap (around : List Element) (es : List Element) :
    visitsOf (total around).1 (total around).2 es =
      (occurrencesOf around es).flatMap Occurrence.visits := by
  cases es with
  | nil => rfl
  | cons e es =>
      rw [visitsOf, occurrencesOf, List.flatMap_append, visits_eq_flatMap around e,
        visitsOf_eq_flatMap around es]

end

theorem visits_root (root : Element) :
    visits (.real 0.0) (.real 0.0) root = (occurrences [] root).flatMap Occurrence.visits :=
  visits_eq_flatMap [] root

/-- The results of the lines that are met in an element that stands in a translation. -/
def resultsIn (dx dy : Number) (e : Element) : List (Except LineFault (Ends Number)) :=
  (visits dx dy e).filterMap Visit.ends?

/-- The results of the lines that are met in some elements. -/
def resultsOf (dx dy : Number) (es : List Element) : List (Except LineFault (Ends Number)) :=
  (visitsOf dx dy es).filterMap Visit.ends?

theorem filterMap_ends_malformed (transform : Option String) :
    (transform.toList.map Visit.malformed).filterMap Visit.ends? = [] := by
  cases transform <;> rfl

theorem filterMap_ends_line (e : Element) (dx dy : Number) (vs : List Visit) :
    (Visit.line e dx dy :: vs).filterMap Visit.ends? =
      endsOf e dx dy :: vs.filterMap Visit.ends? := rfl

/-- The results of a document are those of the lines that are met. -/
theorem results_eq (root : Element) : results root = resultsIn (.real 0.0) (.real 0.0) root := by
  rw [resultsIn, visits_root, results, lines]
  induction occurrences [] root with
  | nil => rfl
  | cons o os ih =>
      rw [List.flatMap_cons, List.filterMap_append, ← ih, Occurrence.visits, List.filterMap_append,
        filterMap_ends_malformed, List.nil_append]
      by_cases hline : o.isLine
      · simp [hline, Visit.ends?, Occurrence.ends]
      · simp [hline]

/-- The transforms that are met are those of the elements of a document. -/
theorem transforms_eq (root : Element) :
    (visits (.real 0.0) (.real 0.0) root).filterMap Visit.transform? =
      (occurrences [] root).filterMap fun o => malformed? o.element := by
  rw [visits_root]
  induction occurrences [] root with
  | nil => rfl
  | cons o os ih =>
      have hself : o.visits.filterMap Visit.transform? = (malformed? o.element).toList := by
        rw [Occurrence.visits, List.filterMap_append]
        cases malformed? o.element <;> by_cases hline : o.isLine <;> simp [hline, Visit.transform?]
      rw [List.flatMap_cons, List.filterMap_append, ih, hself, List.filterMap_cons]
      cases malformed? o.element <;> rfl

/-! ### What is reported -/

/-- The lines that are read are those of the outcomes that have one. -/
theorem fst_outcomes (index : Nat) (vs : List Visit) :
    ((outcomes index vs).filterMap Except.toOption) =
      (vs.filterMap Visit.ends?).filterMap Except.toOption := by
  induction vs generalizing index with
  | nil => rfl
  | cons v vs ih =>
      cases v with
      | malformed transform => exact ih index
      | line e dx dy =>
          rw [outcomes, List.filterMap_cons, ih, filterMap_ends_line, List.filterMap_cons]
          cases endsOf e dx dy <;> rfl

/-- The warning of an outcome, if it is one. -/
def warning? : Except Warning (Ends Number) → Option Warning
  | .ok _ => none
  | .error w => some w

/-- The reason why a line is skipped, with its number. -/
def skip? : Except LineFault (Ends Number) × Nat → Option (Nat × LineFault)
  | (.ok _, _) => none
  | (.error fault, index) => some (index, fault)

/-- The lines that are skipped are reported with their numbers. -/
theorem skips_outcomes (index : Nat) (vs : List Visit) :
    ((outcomes index vs).filterMap warning?).filterMap Warning.skip? =
      ((vs.filterMap Visit.ends?).zipIdx index).filterMap skip? := by
  induction vs generalizing index with
  | nil => rfl
  | cons v vs ih =>
      cases v with
      | malformed transform => exact ih index
      | line e dx dy =>
          rw [outcomes, List.filterMap_cons, filterMap_ends_line, List.zipIdx_cons,
            List.filterMap_cons, ← ih]
          cases endsOf e dx dy <;> rfl

/-- The transforms that cannot be read are reported. -/
theorem transforms_outcomes (index : Nat) (vs : List Visit) :
    ((outcomes index vs).filterMap warning?).filterMap Warning.transform? =
      vs.filterMap Visit.transform? := by
  induction vs generalizing index with
  | nil => rfl
  | cons v vs ih =>
      cases v with
      | malformed transform => exact congrArg (transform :: ·) (ih index)
      | line e dx dy =>
          rw [outcomes, List.filterMap_cons, List.filterMap_cons_none rfl, ← ih (index + 1)]
          cases endsOf e dx dy <;> rfl

theorem fst_readLines (root : Element) :
    (readLines root).1 = (results root).filterMap Except.toOption := by
  rw [results_eq, resultsIn, ← fst_outcomes 0, readLines]
  apply List.filterMap_congr
  intro outcome _
  cases outcome <;> rfl

theorem snd_readLines (root : Element) :
    (readLines root).2 =
      (outcomes 0 (visits (.real 0.0) (.real 0.0) root)).filterMap warning? := by
  rw [readLines]
  apply List.filterMap_congr
  intro outcome _
  cases outcome <;> rfl

theorem skips_readLines (root : Element) :
    (readLines root).2.filterMap Warning.skip? = (results root).zipIdx.filterMap skip? := by
  rw [snd_readLines, skips_outcomes, results_eq, resultsIn]

theorem transforms_readLines (root : Element) :
    (readLines root).2.filterMap Warning.transform? =
      (occurrences [] root).filterMap fun o => malformed? o.element := by
  rw [snd_readLines, transforms_outcomes, transforms_eq]

/-- Nothing else is reported. -/
theorem isSome_of_mem_readLines {root : Element} {w : Warning} (h : w ∈ (readLines root).2) :
    w.skip?.isSome ∨ w.transform?.isSome := by
  cases w with
  | malformedTransform transform => exact Or.inr rfl
  | skippedLine index fault => exact Or.inl rfl
  | unreadable => exact absurd h (unreadable_not_mem_readLines root)

/-- Lines that are read and lines that are skipped are all lines there are. -/
theorem length_filterMap_add (rs : List (Except LineFault (Ends Number))) (index : Nat) :
    (rs.filterMap Except.toOption).length + ((rs.zipIdx index).filterMap skip?).length =
      rs.length := by
  induction rs generalizing index with
  | nil => rfl
  | cons r rs ih =>
      rw [List.zipIdx_cons, List.filterMap_cons, List.filterMap_cons, List.length_cons,
        ← ih (index + 1)]
      cases r with
      | ok ends => simp [Except.toOption, skip?]; omega
      | error fault => simp [Except.toOption, skip?]; omega

/-! ### Documents in which one element is changed -/

/-- A document in which one element is missing. -/
inductive Context where
  | hole
  | inside (name : String) (attributes : List (String × String)) (text : String)
    (before : List Element) (inner : Context) (after : List Element)

/-- The document with an element put where one is missing. -/
def Context.plug (e : Element) : Context → Element
  | hole => e
  | inside name attributes text before inner after =>
    .node name attributes text (before ++ inner.plug e :: after)

theorem resultsOf_append (dx dy : Number) (es ds : List Element) :
    resultsOf dx dy (es ++ ds) = resultsOf dx dy es ++ resultsOf dx dy ds := by
  rw [resultsOf, visitsOf_append, List.filterMap_append]
  rfl

theorem resultsOf_cons (dx dy : Number) (e : Element) (es : List Element) :
    resultsOf dx dy (e :: es) = resultsIn dx dy e ++ resultsOf dx dy es := by
  rw [resultsOf, visitsOf, List.filterMap_append]
  rfl

/-- The result of an element itself, if it is a line. -/
def ownResults (dx dy : Number) (e : Element) : List (Except LineFault (Ends Number)) :=
  if e.localName = "line" then [endsOf e dx dy] else []

/-- The results in an element are its own and those of the lines inside it. -/
theorem resultsIn_eq (dx dy : Number) (e : Element) :
    resultsIn dx dy e =
      ownResults (dx + (contribution e).1) (dy + (contribution e).2) e ++
        resultsOf (dx + (contribution e).1) (dy + (contribution e).2) e.children := by
  cases e with
  | node name attributes text children =>
      rw [resultsIn, visits, translationIn_eq]
      simp only [List.filterMap_append, filterMap_ends_malformed, List.nil_append]
      rw [ownResults, resultsOf, Element.children]
      split <;> rfl

theorem length_ownResults {e e' : Element} (h : e.localName = e'.localName)
    (dx dy dx' dy' : Number) :
    (ownResults dx dy e).length = (ownResults dx' dy' e').length := by
  rw [ownResults, ownResults, h]
  split <;> rfl

mutual

/-- How many lines there are in an element does not depend on where it stands. -/
theorem length_resultsIn (dx dy dx' dy' : Number) (e : Element) :
    (resultsIn dx dy e).length = (resultsIn dx' dy' e).length := by
  cases e with
  | node name attributes text children =>
      rw [resultsIn_eq, resultsIn_eq, List.length_append, List.length_append,
        length_ownResults rfl]
      exact congrArg _ (length_resultsOf _ _ _ _ children)

theorem length_resultsOf (dx dy dx' dy' : Number) (es : List Element) :
    (resultsOf dx dy es).length = (resultsOf dx' dy' es).length := by
  cases es with
  | nil => rfl
  | cons e es =>
      rw [resultsOf_cons, resultsOf_cons, List.length_append, List.length_append,
        length_resultsIn dx dy dx' dy' e, length_resultsOf dx dy dx' dy' es]

end

/-- Nor does it depend on the attributes of the element. -/
theorem length_resultsIn_node (dx dy dx' dy' : Number) (name text : String)
    (attributes attributes' : List (String × String)) (children : List Element) :
    (resultsIn dx dy (.node name attributes text children)).length =
      (resultsIn dx' dy' (.node name attributes' text children)).length := by
  have hname : (Element.node name attributes text children).localName =
      (Element.node name attributes' text children).localName := rfl
  rw [resultsIn_eq, resultsIn_eq, List.length_append, List.length_append, length_ownResults hname]
  exact congrArg _ (length_resultsOf _ _ _ _ children)

/-- **The results around an element** do not depend on it. -/
theorem exists_resultsIn_plug (c : Context) (dx dy : Number) :
    ∃ before after ex ey, ∀ e,
      resultsIn dx dy (c.plug e) = before ++ resultsIn ex ey e ++ after := by
  induction c generalizing dx dy with
  | hole => exact ⟨[], [], dx, dy, fun e => by simp [Context.plug]⟩
  | inside name attributes text before inner after ih =>
      let own := contribution (.node name attributes text [])
      obtain ⟨front, back, ex, ey, hinner⟩ := ih (dx + own.1) (dy + own.2)
      refine ⟨ownResults (dx + own.1) (dy + own.2) (.node name attributes text []) ++
        resultsOf (dx + own.1) (dy + own.2) before ++ front,
        back ++ resultsOf (dx + own.1) (dy + own.2) after, ex, ey, fun e => ?_⟩
      have hcons := resultsOf_cons (dx + own.1) (dy + own.2) (inner.plug e) after
      rw [hinner] at hcons
      have happend := resultsOf_append (dx + own.1) (dy + own.2) before (inner.plug e :: after)
      rw [hcons] at happend
      calc resultsIn dx dy ((Context.inside name attributes text before inner after).plug e)
          = ownResults (dx + own.1) (dy + own.2) (.node name attributes text []) ++
              resultsOf (dx + own.1) (dy + own.2) (before ++ inner.plug e :: after) :=
            resultsIn_eq dx dy _
        _ = _ := by
            rw [happend]
            simp only [List.append_assoc]

theorem length_results (root : Element) : (results root).length = (lines root).length :=
  List.length_map _

/-- **Only the lines at or below an element** depend on its attributes. -/
theorem results_plug (c : Context) (name text : String) (children : List Element) :
    ∃ before after, ∀ attributes, ∃ inside,
      results (c.plug (.node name attributes text children)) = before ++ inside ++ after ∧
        inside.length = (lines (.node name [] text children)).length := by
  obtain ⟨before, after, ex, ey, hplug⟩ := exists_resultsIn_plug c (.real 0.0) (.real 0.0)
  refine ⟨before, after, fun attributes => ?_⟩
  refine ⟨resultsIn ex ey (.node name attributes text children), ?_, ?_⟩
  · rw [results_eq, hplug]
  · rw [← length_results, results_eq]
    exact length_resultsIn_node _ _ _ _ name text attributes [] children

/-! ### Transforms that cannot be read -/

/-- Attributes without their transform, if it cannot be read. -/
def mendedAttributes (attributes : List (String × String)) : List (String × String) :=
  match translation (attributes.lookup "transform") with
  | .ok _ => attributes
  | .error _ => attributes.filter (·.1 != "transform")

mutual

/-- A document without the transforms that cannot be read. -/
def mended : Element → Element
  | .node name attributes text children =>
    .node name (mendedAttributes attributes) text (mendedOf children)

/-- Some elements without the transforms that cannot be read. -/
def mendedOf : List Element → List Element
  | [] => []
  | e :: rest => mended e :: mendedOf rest

end

/-- Attributes of other keys than one that is left out stay. -/
theorem lookup_filter_ne {key other : String} (h : key ≠ other)
    (attributes : List (String × String)) :
    (attributes.filter (·.1 != other)).lookup key = attributes.lookup key := by
  induction attributes with
  | nil => rfl
  | cons a attributes ih =>
      by_cases hother : a.1 = other
      · have hkey : (key == a.1) = false := by simpa [hother] using h
        rw [List.filter_cons_of_neg (by simp [hother]), ih, List.lookup_cons, hkey]
      · rw [List.filter_cons_of_pos (by simp [hother]), List.lookup_cons, List.lookup_cons, ih]

theorem lookup_filter_self (key : String) (attributes : List (String × String)) :
    (attributes.filter (·.1 != key)).lookup key = none := by
  rw [List.lookup_eq_none_iff]
  intro a ha
  have hne := (List.mem_filter.mp ha).2
  simp at hne ⊢
  exact fun h => hne h.symm

/-- Only the transform can be missing afterwards. -/
theorem attribute?_mended (e : Element) {key : String} (h : key ≠ "transform") :
    (mended e).attribute? key = e.attribute? key := by
  cases e with
  | node name attributes text children =>
      rw [mended, Element.attribute?, Element.attributes, mendedAttributes]
      split
      · rfl
      · exact lookup_filter_ne h attributes

/-- What is left of the transform adds what the element contributed. -/
theorem translation_mended (e : Element) :
    translation ((mended e).attribute? "transform") = .ok (contribution e) := by
  cases e with
  | node name attributes text children =>
      rw [mended, Element.attribute?, Element.attributes, mendedAttributes, contribution,
        Element.attribute?, Element.attributes]
      cases h : translation (attributes.lookup "transform") with
      | ok v => exact h
      | error fault =>
          rw [lookup_filter_self]
          rfl

theorem contribution_mended (e : Element) : contribution (mended e) = contribution e := by
  rw [contribution, translation_mended]

theorem malformed?_mended (e : Element) : malformed? (mended e) = none := by
  rw [malformed?, translation_mended]

theorem ownResults_mended (dx dy : Number) (e : Element) :
    ownResults dx dy (mended e) = ownResults dx dy e := by
  have hname : (mended e).localName = e.localName := by
    cases e
    rfl
  have hcoordinate : ∀ key, key ≠ "transform" →
      coordinateOf (mended e) key = coordinateOf e key := by
    intro key hkey
    rw [coordinateOf, attribute?_mended e hkey, coordinateOf]
  rw [ownResults, ownResults, hname, endsOf, endsOf, hcoordinate _ (by decide),
    hcoordinate _ (by decide), hcoordinate _ (by decide), hcoordinate _ (by decide)]

mutual

/-- **A transform that cannot be read does nothing**: without it the lines are the same. -/
theorem resultsIn_mended (dx dy : Number) (e : Element) :
    resultsIn dx dy (mended e) = resultsIn dx dy e := by
  cases e with
  | node name attributes text children =>
      rw [resultsIn_eq, resultsIn_eq, ownResults_mended, contribution_mended, mended]
      exact congrArg _ (resultsOf_mended _ _ children)

theorem resultsOf_mended (dx dy : Number) (es : List Element) :
    resultsOf dx dy (mendedOf es) = resultsOf dx dy es := by
  cases es with
  | nil => rfl
  | cons e es =>
      rw [mendedOf, resultsOf_cons, resultsOf_cons, resultsIn_mended dx dy e,
        resultsOf_mended dx dy es]

end

theorem results_mended (root : Element) : results (mended root) = results root := by
  rw [results_eq, results_eq, resultsIn_mended]

mutual

/-- In a document that is mended every transform can be read. -/
theorem malformed_of_mem_occurrences (around : List Element) (e : Element) :
    ∀ o ∈ occurrences around (mended e), malformed? o.element = none := by
  cases e with
  | node name attributes text children =>
      intro o ho
      rw [mended, occurrences] at ho
      rcases List.mem_cons.mp ho with rfl | hinside
      · exact malformed?_mended (.node name attributes text children)
      · exact malformed_of_mem_occurrencesOf _ children o hinside

theorem malformed_of_mem_occurrencesOf (around : List Element) (es : List Element) :
    ∀ o ∈ occurrencesOf around (mendedOf es), malformed? o.element = none := by
  cases es with
  | nil => exact fun o ho => absurd ho List.not_mem_nil
  | cons e es =>
      intro o ho
      rw [mendedOf, occurrencesOf] at ho
      rcases List.mem_append.mp ho with hfirst | hrest
      · exact malformed_of_mem_occurrences around e o hfirst
      · exact malformed_of_mem_occurrencesOf around es o hrest

end

/-- **Every line is accounted for.**  Whatever the document is, each of its lines gives either its
end points or one warning with its number, and each transform that cannot be read gives one warning.
The end points are the four coordinates, moved by the translations on the way to the line.  The
lines outside an element do not depend on the attributes of that element, and no line depends on
transforms that cannot be read. -/
theorem readLines_accounts (root : Element) :
    ((readLines root).1 = (lines root).filterMap fun l => l.ends.toOption) ∧
    ((readLines root).2.filterMap Warning.skip? =
      ((lines root).map Occurrence.ends).zipIdx.filterMap skip?) ∧
    (readLines root).1.length + ((readLines root).2.filterMap Warning.skip?).length =
      (lines root).length ∧
    ((readLines root).2.filterMap Warning.transform? =
      (occurrences [] root).filterMap fun o => malformed? o.element) ∧
    (∀ w ∈ (readLines root).2, w.skip?.isSome ∨ w.transform?.isSome) ∧
    (∀ l ∈ lines root, ∀ ends, l.ends = .ok ends ↔
      ∃ x1 y1 x2 y2, coordinateOf l.element "x1" = .ok x1 ∧ coordinateOf l.element "y1" = .ok y1 ∧
        coordinateOf l.element "x2" = .ok x2 ∧ coordinateOf l.element "y2" = .ok y2 ∧
        ends = ⟨x1 + l.offset.1, y1 + l.offset.2, x2 + l.offset.1, y2 + l.offset.2⟩ ∧
        ∀ x ∈ [ends.x1, ends.y1, ends.x2, ends.y2], x.isFinite = true) ∧
    (results (mended root) = results root ∧
      ∀ o ∈ occurrences [] (mended root), malformed? o.element = none) ∧
    ∀ (c : Context) (name text : String) (children : List Element), ∃ before after,
      ∀ attributes, ∃ inside,
        results (c.plug (.node name attributes text children)) = before ++ inside ++ after ∧
          inside.length = (lines (.node name [] text children)).length := by
  refine ⟨?_, skips_readLines root, ?_, transforms_readLines root, ?_, ?_, ?_, results_plug⟩
  · rw [fst_readLines, results, List.filterMap_map]
    rfl
  · rw [fst_readLines, skips_readLines, length_filterMap_add, length_results]
  · exact fun w hw => isSome_of_mem_readLines hw
  · exact fun l _ ends => endsOf_eq_ok_iff
  · exact ⟨results_mended root, malformed_of_mem_occurrences [] root⟩

end Tromp.Svg
