import Mathlib
import Tromp.Proofs.Settings.Accepted

/-!
# Loose options

Settings of a layout and settings of a rendering are built from the same loose options.  Each kind
takes what it knows and ignores the rest, and the settings of a rendering pass the checks of a
layout before their own.  So options that are good for a rendering are good for a layout, with the
same values, and what a layout refuses a rendering refuses for the same reason
(`ofOptions_agree`).

1.  What options say about a field is what the last entry says whose key names the field and whose
    value is not nothing.  It does not depend on the kind of settings (`get?_assignment`).
2.  The checks of a layout look at the fields of a layout only (`Sheet.checkLayout_congr`).
3.  If no two keys name the same field, what options say does not depend on the order of the
    entries, and of a key nothing counts but its form (`Options.given?_eq_of_sameEntries`).
-/

namespace Tromp

/-! ### Names of fields -/

namespace Field

variable {fields : List Field} {field : Field} {name : String}

theorem mem_ofRendering (field : Field) : field ∈ ofRendering := by
  cases field <;> decide

theorem named?_ofRendering_name (field : Field) : named? ofRendering field.name = some field := by
  cases field <;> decide

/-- No two fields have one name. -/
theorem name_injective : Function.Injective Field.name := by
  intro field field' h
  have hfield := named?_ofRendering_name field
  rw [h, named?_ofRendering_name field'] at hfield
  exact (Option.some.inj hfield).symm

theorem named?_eq_some_iff :
    named? fields name = some field ↔ field ∈ fields ∧ field.name = name := by
  have hnamed : ∀ {other}, named? fields name = some other → other.name = name :=
    fun h => by simpa using List.find?_some (p := fun f : Field => f.name == name) h
  constructor
  · intro h
    exact ⟨List.mem_of_find?_eq_some h, hnamed h⟩
  · rintro ⟨hmem, rfl⟩
    have hsome : (named? fields field.name).isSome := List.find?_isSome.mpr ⟨field, hmem, by simp⟩
    obtain ⟨other, hother⟩ := Option.isSome_iff_exists.mp hsome
    rw [hother, name_injective (hnamed hother)]

end Field

/-! ### What options say -/

/-- Whether a value says nothing. -/
def Value.isNothing {α : Type} : Value α → Bool
  | .nothing => true
  | _ => false

namespace Options

variable {α : Type} {options options' : Options α} {fields : List Field} {field : Field}
  {entry : String × Value α} {v : Value α}

/-- Whether an entry says something about a field. -/
def Concerns (entry : String × Value α) (field : Field) : Prop :=
  entry.2.isNothing = false ∧ snakeCase entry.1 = field.name

instance (entry : String × Value α) (field : Field) : Decidable (Concerns entry field) :=
  inferInstanceAs (Decidable (_ ∧ _))

/-- What options say about a field: what the last entry says that concerns it. -/
def given? (options : Options α) (field : Field) : Option (Value α) :=
  (options.reverse.find? fun entry => Concerns entry field).map (·.2)

/-- What an entry assigns to some fields. -/
def assigned? (fields : List Field) (entry : String × Value α) : Option (Field × Value α) :=
  if entry.2.isNothing then none
  else (Field.named? fields (snakeCase entry.1)).map (·, entry.2)

theorem assignment_eq (fields : List Field) (options : Options α) :
    options.assignment fields = options.filterMap (assigned? fields) := by
  refine List.filterMap_congr fun entry _ => ?_
  obtain ⟨key, v⟩ := entry
  cases v <;> rfl

theorem assigned?_eq_some_iff : assigned? fields entry = some (field, v) ↔
    field ∈ fields ∧ Concerns entry field ∧ v = entry.2 := by
  unfold assigned? Concerns
  cases hnothing : entry.2.isNothing
  · simp only [Bool.false_eq_true, if_false, Option.map_eq_some_iff, Prod.mk.injEq,
      Field.named?_eq_some_iff]
    grind
  · simp

/-- **Options are assigned to the fields that are known**, and what they say about these does not
depend on what else is known. -/
theorem get?_assignment (fields : List Field) (options : Options α) (field : Field) :
    (options.assignment fields).get? field =
      if field ∈ fields then options.given? field else none := by
  have hany : ∀ entry : String × Value α, (assigned? fields entry).any (·.1 == field) =
      decide (field ∈ fields ∧ Concerns entry field) := by
    intro entry
    rw [Bool.eq_iff_iff, Option.any_eq_true, decide_eq_true_iff]
    constructor
    · rintro ⟨⟨other, v⟩, hassigned, hother⟩
      obtain rfl := beq_iff_eq.mp hother
      exact (assigned?_eq_some_iff.mp hassigned).imp_right And.left
    · rintro ⟨hmem, hconcerns⟩
      exact ⟨(field, entry.2), assigned?_eq_some_iff.mpr ⟨hmem, hconcerns, rfl⟩, beq_self_eq_true _⟩
  rw [Assignment.get?, assignment_eq, ← List.filterMap_reverse, List.find?_filterMap]
  simp only [hany]
  by_cases hmem : field ∈ fields
  · rw [if_pos hmem, given?]
    simp only [hmem, true_and]
    cases hfind : options.reverse.find? fun entry => decide (Concerns entry field) with
    | none => rfl
    | some entry =>
        have hconcerns : Concerns entry field := by simpa using List.find?_some hfind
        have hassigned : assigned? fields entry = some (field, entry.2) :=
          assigned?_eq_some_iff.mpr ⟨hmem, hconcerns, rfl⟩
        rw [Option.bind_some, hassigned]
        rfl
  · have hnone : options.reverse.find? (fun _ => false) = none := by simp
    rw [if_neg hmem]
    simp only [hmem, false_and, decide_false, hnone, Option.bind_none, Option.map_none]

/-! ### Entries in another order and with other keys -/

/-- What becomes of keys when capitals are taken apart and all letters are made small.  Where a key
becomes the name of a field it does so by `snakeCase`, which leaves letters alone that no field has
in its name; what other keys become is left open. -/
def IsForm (form : String → String) : Prop :=
  ∀ key (field : Field), form key = field.name ↔ snakeCase key = field.name

theorem isForm_snakeCase : IsForm snakeCase := fun _ _ => Iff.rfl

/-- The entries of options, each by the form of its key. -/
def entriesBy (form : String → String) (options : Options α) : List (String × Value α) :=
  options.map fun entry => (form entry.1, entry.2)

/-- Options with the same entries, in any order and with keys spelled in any way of one form. -/
def SameEntries (form : String → String) (options options' : Options α) : Prop :=
  (entriesBy form options).Perm (entriesBy form options')

/-- No two keys of options have one form. -/
def HasDistinctKeys (form : String → String) (options : Options α) : Prop :=
  (options.map fun entry => form entry.1).Nodup

variable {form : String → String}

theorem HasDistinctKeys.of_sameEntries (h : HasDistinctKeys form options)
    (hsame : SameEntries form options options') : HasDistinctKeys form options' := by
  have hkeys := hsame.map Prod.fst
  simp only [entriesBy, List.map_map] at hkeys
  exact hkeys.nodup_iff.mp h

/-- With distinct keys options say about a field what their entry for it says. -/
theorem given?_eq_some_iff (hform : IsForm form) (h : HasDistinctKeys form options) :
    options.given? field = some v ↔
      v.isNothing = false ∧ (field.name, v) ∈ entriesBy form options := by
  rw [given?, Option.map_eq_some_iff]
  constructor
  · rintro ⟨entry, hfind, rfl⟩
    have hmem : entry ∈ options := List.mem_reverse.mp (List.mem_of_find?_eq_some hfind)
    obtain ⟨hnothing, hname⟩ : Concerns entry field := by simpa using List.find?_some hfind
    exact ⟨hnothing, List.mem_map.mpr ⟨entry, hmem, by rw [(hform _ _).mpr hname]⟩⟩
  · rintro ⟨hnothing, hmem⟩
    obtain ⟨entry, hentry, heq⟩ := List.mem_map.mp hmem
    obtain ⟨hname, rfl⟩ := Prod.mk.inj heq
    have hconcerns : Concerns entry field := ⟨hnothing, (hform _ _).mp hname⟩
    have hsome : (options.reverse.find? fun entry => Concerns entry field).isSome :=
      List.find?_isSome.mpr ⟨entry, List.mem_reverse.mpr hentry, by simpa using hconcerns⟩
    obtain ⟨other, hother⟩ := Option.isSome_iff_exists.mp hsome
    -- The entry that is found has the same form, so it is this one.
    have hothermem : other ∈ options := List.mem_reverse.mp (List.mem_of_find?_eq_some hother)
    have hotherconcerns : Concerns other field := by simpa using List.find?_some hother
    have hsameform : form other.1 = form entry.1 :=
      ((hform _ _).mpr hotherconcerns.2).trans hname.symm
    exact ⟨other, hother, congrArg Prod.snd (List.inj_on_of_nodup_map h hothermem hentry hsameform)⟩

/-- **Neither the order of entries nor the spelling of keys counts** when keys are distinct. -/
theorem given?_eq_of_sameEntries (hform : IsForm form) (h : HasDistinctKeys form options)
    (hsame : SameEntries form options options') : options'.given? field = options.given? field := by
  refine Option.ext fun v => ?_
  rw [given?_eq_some_iff hform h, given?_eq_some_iff hform (h.of_sameEntries hsame), hsame.mem_iff]

end Options

/-! ### Sheets -/

/-- Checks that agree on some things agree as a row. -/
theorem Guard.forM_congr {ε β : Type} {f g : β → Except ε Unit} {bs : List β}
    (h : ∀ b ∈ bs, f b = g b) : bs.forM f = bs.forM g := by
  induction bs with
  | nil => rfl
  | cons b bs ih =>
      obtain ⟨hb, hbs⟩ := List.forall_mem_cons.mp h
      calc (f b >>= fun _ => bs.forM f) = (g b >>= fun _ => bs.forM g) := by rw [hb, ih hbs]

namespace Sheet

variable {α : Type} {s s' : Sheet α}

/-- Sheets that have the same values for the fields of a layout. -/
def SameLayout (s s' : Sheet α) : Prop := ∀ field ∈ Field.ofLayout, s.value field = s'.value field

theorem SameLayout.listPalette (h : SameLayout s s') : SameLayout s.listPalette s'.listPalette := by
  intro field hfield
  simp only [Sheet.listPalette, h .colors (by decide), h field hfield]

variable [Scalar α] {kind : SettingsKind} {given : Field → Option (Value α)}
  {fault : SettingsFault α}

/-- The checks of a layout look at its fields only. -/
theorem checkLayout_congr (h : SameLayout s s') : s.checkLayout = s'.checkLayout := by
  have hsizes : Field.sizes.forM s.requirePositive = Field.sizes.forM s'.requirePositive := by
    have hsub : Field.sizes ⊆ Field.ofLayout := by decide
    exact Guard.forM_congr fun field hfield => by
      simp only [requirePositive, h field (hsub hfield)]
  have hmargins : Field.margins.forM s.requireNonNegative =
      Field.margins.forM s'.requireNonNegative := by
    have hsub : Field.margins ⊆ Field.ofLayout := by decide
    exact Guard.forM_congr fun field hfield => by
      simp only [requireNonNegative, h field (hsub hfield)]
  have hcolors : s.value .colors = s'.value .colors := h .colors (by decide)
  have hlabels : ∀ words, s.requireAmong .variableLabels words =
      s'.requireAmong .variableLabels words := by
    intro words
    simp only [requireAmong, h .variableLabels (by decide)]
  rw [checkLayout, checkLayout, hsizes, hmargins, hcolors, hlabels]

/-- The sheet of given values, before it is checked. -/
def filled (kind : SettingsKind) (given : Field → Option (Value α)) : Sheet α :=
  ⟨kind, fun field => (given field).getD field.default⟩

/-- What is refused as a layout is refused, whatever the kind. -/
theorem build_eq_error (h : (filled kind given).checkLayout = .error fault) :
    build kind given = .error fault := by
  have hcheck : (filled kind given).check = .error fault := by rw [check, h]; rfl
  calc build kind given
      = (filled kind given).check >>= fun _ => .ok (filled kind given).listPalette := rfl
    _ = .error fault := by rw [hcheck]; rfl

theorem build_layout_eq_ok (h : (filled .layout given).checkLayout = .ok ()) :
    build .layout given = .ok (filled .layout given).listPalette := by
  have hcheck : (filled .layout given).check = .ok () := by rw [check, h]; rfl
  calc build .layout given
      = (filled .layout given).check >>= fun _ => .ok (filled .layout given).listPalette := rfl
    _ = .ok (filled .layout given).listPalette := by rw [hcheck]; rfl

theorem of_build_eq_ok (h : build kind given = .ok s) :
    (filled kind given).checkLayout = .ok () ∧ s = (filled kind given).listPalette := by
  obtain ⟨⟨⟩, hcheck, hs⟩ := Guard.bind_eq_ok.mp h
  obtain ⟨⟨⟩, hlayout, -⟩ := Guard.bind_eq_ok.mp hcheck
  exact ⟨hlayout, (Except.ok.inj hs).symm⟩

/-- The two kinds of settings are given the same values for the fields of a layout. -/
theorem sameLayout_filled (options : Options α) :
    SameLayout (filled .rendering (options.assignment Field.ofRendering).get?)
      (filled .layout (options.assignment Field.ofLayout).get?) := by
  intro field hfield
  simp only [filled, Options.get?_assignment, if_pos hfield, if_pos field.mem_ofRendering]

end Sheet

/-- **Loose options mean the same to both kinds of settings.**  What is accepted for a rendering is
accepted for a layout and gives its fields the same values; what is refused for a layout is refused
for a rendering, for the same reason.  Entries may stand in any order, and keys may be spelled in
any way of the same form, if no two keys have one form. -/
theorem ofOptions_agree {α : Type} [Scalar α] (options : Options α) :
    (∀ r, Sheet.ofOptions .rendering options = .ok r →
      ∃ l, Sheet.ofOptions .layout options = .ok l ∧
        ∀ field ∈ Field.ofLayout, r.value field = l.value field) ∧
    (∀ fault, Sheet.ofOptions .layout options = .error fault →
      Sheet.ofOptions .rendering options = .error fault) ∧
    ∀ form options', Options.IsForm form → options.HasDistinctKeys form →
      options.SameEntries form options' →
        ∀ kind, Sheet.ofOptions kind options' = Sheet.ofOptions kind options := by
  have hsame := Sheet.sameLayout_filled options
  have hchecks := Sheet.checkLayout_congr hsame
  refine ⟨?_, ?_, ?_⟩
  · intro r hr
    obtain ⟨hcheck, rfl⟩ := Sheet.of_build_eq_ok hr
    exact ⟨_, Sheet.build_layout_eq_ok (hchecks.symm.trans hcheck), hsame.listPalette⟩
  · intro fault hfault
    refine Sheet.build_eq_error (hchecks.trans ?_)
    cases hcheck : (Sheet.filled .layout (options.assignment Field.ofLayout).get?).checkLayout with
    | error other =>
        have hother : Sheet.ofOptions .layout options = .error other := Sheet.build_eq_error hcheck
        rw [Except.error.inj (hother.symm.trans hfault)]
    | ok _ => cases hfault.symm.trans (Sheet.build_layout_eq_ok hcheck)
  · intro form options' hform hkeys hentries kind
    have hgiven :
        (options'.assignment kind.fields).get? = (options.assignment kind.fields).get? := by
      funext field
      rw [Options.get?_assignment, Options.get?_assignment,
        Options.given?_eq_of_sameEntries hform hkeys hentries]
    rw [Sheet.ofOptions, Sheet.ofOptions, hgiven]

/-- Options with a key in capitals, one that names no field, and options that neither kind takes. -/
theorem ofOptions_agree_respelled :
    let options : Options Rat :=
      [("unitSize", .number 12), ("theme", .text "dark"), ("anchor", .nothing)]
    let options' : Options Rat :=
      [("theme", .text "dark"), ("unit_size", .number 12), ("Anchor", .nothing)]
    let refused : Options Rat := [("anchor", .text "left"), ("unitSize", .number 0)]
    options.HasDistinctKeys snakeCase ∧ options.SameEntries snakeCase options' ∧
      (∀ kind, Sheet.ofOptions kind options' = Sheet.ofOptions kind options) ∧
      (∃ r l, Sheet.ofOptions .rendering options = .ok r ∧ Sheet.ofOptions .layout options = .ok l ∧
        ∀ field ∈ Field.ofLayout, r.value field = l.value field) ∧
      Sheet.ofOptions .layout refused = .error (.notPositive .unitSize (.number 0)) ∧
      Sheet.ofOptions .rendering refused = .error (.notPositive .unitSize (.number 0)) := by
  intro options options' refused
  have hkeys : options.HasDistinctKeys snakeCase := by
    unfold Options.HasDistinctKeys
    decide
  have hentries : options.SameEntries snakeCase options' := by
    have h : Options.entriesBy snakeCase options =
        [("unit_size", .number 12), ("theme", .text "dark"), ("anchor", .nothing)] := by cbv
    have h' : Options.entriesBy snakeCase options' =
        [("theme", .text "dark"), ("unit_size", .number 12), ("anchor", .nothing)] := by cbv
    rw [Options.SameEntries, h, h']
    exact .swap _ _ _
  have hr : Sheet.ofOptions .rendering options =
      .ok (Sheet.filled .rendering (options.assignment Field.ofRendering).get?).listPalette := by
    cbv
  have hrefused : Sheet.ofOptions .layout refused =
      .error (.notPositive .unitSize (.number 0)) := by
    cbv
  obtain ⟨haccepted, -, hrespelled⟩ := ofOptions_agree options
  obtain ⟨l, hl, hagree⟩ := haccepted _ hr
  exact ⟨hkeys, hentries, hrespelled snakeCase options' Options.isForm_snakeCase hkeys hentries,
    ⟨_, l, hr, hl, hagree⟩, hrefused, (ofOptions_agree refused).2.1 _ hrefused⟩

end Tromp
