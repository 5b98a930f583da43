import Tromp.Proofs.Xml.RoundTrip

/-!
# An angle bracket in a value

The value of an attribute ends at the quote that it began with and holds no angle bracket.  Printing
does not look at values, so an element can be printed with a value in which a bracket stands before
any quote (`HasBareBracket`).  The machine that cuts a document into its markup stops there, whatever
comes after, and the document has no root.
-/

namespace Tromp.Xml

/-- A text with an angle bracket that no quote stands before. -/
def HasBareBracket (s : String) : Prop :=
  ∃ cs ds, s.toList = cs ++ '<' :: ds ∧ ∀ c ∈ cs, c ≠ '<' ∧ c ≠ '"'

/-- The machine stops within some characters. -/
def Stops (m : Mode) (cs : List Char) : Prop :=
  ∀ completed, cs.foldlM Scanner.step ⟨m, completed, false⟩ = none

variable {m m₁ : Mode} {cs ds : List Char} {ms : List Markup} {t : OpenTag}

theorem Scans.stops (h : Scans m cs m₁ ms) (hrest : Stops m₁ ds) : Stops m (cs ++ ds) := by
  intro completed
  rw [List.foldlM_append, h completed]
  exact hrest _

theorem Stops.append (h : Stops m cs) (ds : List Char) : Stops m (cs ++ ds) := by
  intro completed
  rw [List.foldlM_append, h completed]
  rfl

/-- A value with a bare bracket stops the machine. -/
theorem Stops.value {key : List Char} {value : String} (h : HasBareBracket value) :
    Stops (.quote t key) ('"' :: (value.toList ++ ['"'])) := by
  obtain ⟨cs, ds, hvalue, hplain⟩ := h
  have hstop : Stops (.value t key '"' []) (cs ++ '<' :: (ds ++ ['"'])) := by
    intro completed
    obtain ⟨returned, hlast⟩ :=
      foldlM_lineFeeds (fun c hc => Mode.step_value_plain (hplain c hc)) [] completed false
    rw [List.foldlM_append, hlast]
    simp [Scanner.step, Mode.step_value]
  simpa [hvalue] using (Scans.openValue t key).stops hstop

/-- So does the attribute that has it. -/
theorem Stops.attribute {a : String × String} (hm : m.AtEnd t)
    (hkey : isPlainName a.1.toList = true) (h : HasBareBracket a.2) :
    Stops m (Element.printAttribute a).toList := by
  have hspace : Scans m [' '] (.tag t true) [] := Scans.one (by decide) (hm ' ' (by decide))
  rw [toList_printAttribute]
  exact hspace.stops ((Scans.key hkey).stops (Stops.value h))

variable {name text : String} {as bs : List (String × String)} {a : String × String}
  {e : Element} {es : List Element}

/-- A start tag one of whose values has a bare bracket stops the machine. -/
theorem Stops.startTag (hname : isPlainName name.toList = true)
    (hkeys : ∀ b ∈ as, isPlainName b.1.toList = true)
    (hvalues : ∀ b ∈ as, ∀ c ∈ b.2.toList, c ≠ '<' ∧ c ≠ '"') (hkey : isPlainName a.1.toList = true)
    (h : HasBareBracket a.2) (read : List Char) :
    Stops (.text read) ('<' :: (name.toList ++
      (as ++ a :: bs).flatMap fun b => (Element.printAttribute b).toList)) := by
  obtain ⟨m, hstart, hend⟩ := Scans.startTag hname hkeys hvalues read
  have hstop := (hstart.stops (Stops.attribute hend hkey h)).append
    (bs.flatMap fun b => (Element.printAttribute b).toList)
  simpa using hstop

/-- So does the element of the tag. -/
theorem Stops.element
    (h : Stops m ('<' :: (name.toList ++ as.flatMap fun a => (Element.printAttribute a).toList))) :
    Stops m (Element.node name as text es).print.toList := by
  by_cases hclosed : (text.isEmpty && es.isEmpty) = true
  · rw [Element.toList_print_closed hclosed]
    exact h.append _
  · rw [Element.toList_print_open hclosed]
    exact h.append _

/-- And so does an element whose first child is such an element. -/
theorem Stops.child (hname : isPlainName name.toList = true)
    (hkeys : ∀ b ∈ as, isPlainName b.1.toList = true)
    (hvalues : ∀ b ∈ as, ∀ c ∈ b.2.toList, c ≠ '<' ∧ c ≠ '"') (htext : Inert text)
    (h : ∀ read, Stops (.text read) e.print.toList) (read : List Char) :
    Stops (.text read) (Element.node name as text (e :: es)).print.toList := by
  have hopen : ¬ (text.isEmpty && (e :: es).isEmpty) = true := by simp
  obtain ⟨m, hstart, hend⟩ := Scans.startTag hname hkeys hvalues read
  have hangle : Scans m ['>'] (.text []) _ := Scans.one (by decide) (hend '>' (by decide))
  have hstop := hstart.stops (hangle.stops ((Scans.text htext).stops (h text.toList.reverse)))
  rw [Element.toList_print_open hopen, Element.piecesOf]
  simpa [Element.toList_print] using hstop.append _

/-- **A document within which the machine stops has no root.** -/
theorem root?_eq_none (h : Stops (.text []) e.print.toList) : root? e.print = none := by
  have hmarkups : markups? e.print.toList = none := by
    have hstop := h []
    simp only [markups?, Scanner.start]
    rw [hstop]
    rfl
  obtain ⟨cs, hcs⟩ := exists_print_eq_cons e
  rw [hcs] at hmarkups
  unfold root?
  rw [hcs]
  simp [hmarkups]

end Tromp.Xml
