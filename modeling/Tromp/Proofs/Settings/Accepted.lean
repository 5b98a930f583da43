import Tromp.Proofs.Arithmetic.Exact
import Tromp.Settings.Render

/-!
# Accepted settings

Settings are accepted when they are read from a sheet on which all conditions are met, the sheet of
a layout or that of a rendering.  `LayoutSettings.IsAccepted` says so in terms of the functions that
build and read sheets, and `LayoutSettings.IsAccepted.bounds` says what that means for the numbers:
sizes are positive and margins are not negative.

Both functions are rows of steps each of which can refuse, so what their success establishes is read
off step by step (`bind_eq_ok`, `forM_eq_ok`).
-/

namespace Tromp

namespace Guard

variable {ε β γ : Type}

/-- One step after another succeeds when each of them does. -/
theorem bind_eq_ok {x : Except ε β} {f : β → Except ε γ} {c : γ} :
    (x >>= f) = .ok c ↔ ∃ b, x = .ok b ∧ f b = .ok c := by
  cases x <;> simp [bind, Except.bind]

/-- A check of some things succeeds only if that of each of them does. -/
theorem forM_eq_ok {f : β → Except ε Unit} {bs : List β} (h : bs.forM f = .ok ()) :
    ∀ b ∈ bs, f b = .ok () := by
  induction bs with
  | nil => simp
  | cons b bs ih =>
      obtain ⟨_, hb, hbs⟩ := bind_eq_ok.mp h
      exact List.forall_mem_cons.mpr ⟨hb, ih hbs⟩

/-- What is computed of the value of a success is computed of some value. -/
theorem exists_of_map_toOption {x : Except ε β} {f : β → γ} {c : γ}
    (h : x.toOption.map f = some c) : ∃ b, x = .ok b ∧ f b = c := by
  cases x with
  | error fault => cases h
  | ok b => exact ⟨b, rfl, Option.some.inj h⟩

end Guard

open Guard

namespace Sheet

variable {s : Sheet Rat} {field : Field}

theorem number_pos_of_requirePositive (h : s.requirePositive field = .ok ()) {x : Rat}
    (hx : (s.value field).number? = some x) : 0 < x := by
  simp only [requirePositive, hx] at h
  split at h
  next => cases h
  next hpos => exact not_le.mp hpos

theorem number_nonneg_of_requireNonNegative (h : s.requireNonNegative field = .ok ()) {x : Rat}
    (hx : (s.value field).number? = some x) : 0 ≤ x := by
  simp only [requireNonNegative, hx] at h
  split at h
  next => cases h
  next hneg => exact not_lt.mp hneg

/-- The numbers of a sheet are those that were checked. -/
theorem number?_of_number_listPalette (hfield : field ≠ .colors) {x : Rat}
    (h : s.listPalette.number field = .ok x) : (s.value field).number? = some x := by
  simp only [number, listPalette, if_neg hfield] at h
  split at h
  next hx => rw [hx, Except.ok.inj h]
  next => cases h

end Sheet

namespace LayoutSettings

/-- Settings that are read from a sheet on which all conditions are met. -/
def IsAccepted {α : Type} [Scalar α] (s : LayoutSettings α) : Prop :=
  ∃ kind given sheet, Sheet.build kind given = .ok sheet ∧ ofSheet sheet = .ok s

/-- Settings that are built are accepted. -/
theorem IsAccepted.of_build {α : Type} [Scalar α] {given : Field → Option (Value α)}
    {s : LayoutSettings α} (h : build given = .ok s) : s.IsAccepted := by
  obtain ⟨sheet, hsheet, hs⟩ := bind_eq_ok.mp h
  exact ⟨.layout, given, sheet, hsheet, hs⟩

/-- What holds of the numbers of accepted settings. -/
structure Bounds (s : LayoutSettings Rat) : Prop where
  unitSize_pos : 0 < s.unitSize
  lineWidth_pos : 0 < s.lineWidth
  width_pos : 0 < s.width
  height_pos : 0 < s.height
  padding_nonneg : 0 ≤ s.padding
  fitMargin_nonneg : 0 ≤ s.fitMargin
  binderOverhang_nonneg : 0 ≤ s.binderOverhang
  labelPadding_nonneg : 0 ≤ s.labelPadding

/-- Settings hold the numbers of their sheet. -/
theorem number_of_ofSheet {sheet : Sheet Rat} {s : LayoutSettings Rat}
    (h : ofSheet sheet = .ok s) :
    sheet.number .unitSize = .ok s.unitSize ∧ sheet.number .lineWidth = .ok s.lineWidth ∧
      sheet.number .padding = .ok s.padding ∧ sheet.number .width = .ok s.width ∧
      sheet.number .height = .ok s.height ∧ sheet.number .fitMargin = .ok s.fitMargin ∧
      sheet.number .binderOverhang = .ok s.binderOverhang ∧
      sheet.number .labelPadding = .ok s.labelPadding := by
  simp only [ofSheet, bind_eq_ok] at h
  obtain ⟨a, ha, b, hb, c, hc, d, hd, e, he, f, hf, g, hg, _, _, _, _, _, _, _, _, _, _,
    l, hl, _, _, _, _, h⟩ := h
  cases h
  exact ⟨ha, hb, hc, hd, he, hf, hg, hl⟩

theorem IsAccepted.bounds {s : LayoutSettings Rat} (h : s.IsAccepted) : s.Bounds := by
  obtain ⟨kind, given, sheet, hbuild, hread⟩ := h
  obtain ⟨⟨⟩, hcheck, hsheet⟩ := bind_eq_ok.mp hbuild
  obtain ⟨⟨⟩, hlayout, -⟩ := bind_eq_ok.mp hcheck
  obtain ⟨⟨⟩, hsizes, hrest⟩ := bind_eq_ok.mp hlayout
  obtain ⟨⟨⟩, hmargins, -⟩ := bind_eq_ok.mp hrest
  obtain rfl := Except.ok.inj hsheet
  obtain ⟨hu, hl, hp, hw, hh, hf, ho, hb⟩ := number_of_ofSheet hread
  have hpos := fun field hfield hne x hx =>
    Sheet.number_pos_of_requirePositive (forM_eq_ok hsizes field hfield) (x := x)
      (Sheet.number?_of_number_listPalette hne hx)
  have hnonneg := fun field hfield hne x hx =>
    Sheet.number_nonneg_of_requireNonNegative (forM_eq_ok hmargins field hfield) (x := x)
      (Sheet.number?_of_number_listPalette hne hx)
  exact {
    unitSize_pos := hpos _ (by decide) (by decide) _ hu
    lineWidth_pos := hpos _ (by decide) (by decide) _ hl
    width_pos := hpos _ (by decide) (by decide) _ hw
    height_pos := hpos _ (by decide) (by decide) _ hh
    padding_nonneg := hnonneg _ (by decide) (by decide) _ hp
    fitMargin_nonneg := hnonneg _ (by decide) (by decide) _ hf
    binderOverhang_nonneg := hnonneg _ (by decide) (by decide) _ ho
    labelPadding_nonneg := hnonneg _ (by decide) (by decide) _ hb }

end LayoutSettings

namespace RenderSettings

variable {α : Type} [Scalar α] {s : RenderSettings α}

/-- Settings of a rendering that are read from a sheet on which all conditions are met. -/
def IsAccepted (s : RenderSettings α) : Prop :=
  ∃ kind given sheet, Sheet.build kind given = .ok sheet ∧ ofSheet sheet = .ok s

/-- Settings that are built are accepted. -/
theorem IsAccepted.of_build {given : Field → Option (Value α)} (h : build given = .ok s) :
    s.IsAccepted := by
  obtain ⟨sheet, hsheet, hs⟩ := bind_eq_ok.mp h
  exact ⟨.rendering, given, sheet, hsheet, hs⟩

/-- Accepted settings of a rendering lay out by accepted settings. -/
theorem IsAccepted.layout (h : s.IsAccepted) : s.toLayoutSettings.IsAccepted := by
  obtain ⟨kind, given, sheet, hsheet, hs⟩ := h
  obtain ⟨base, hbase, hrest⟩ := bind_eq_ok.mp hs
  obtain ⟨background, -, hrest⟩ := bind_eq_ok.mp hrest
  obtain ⟨anchor, -, hs⟩ := bind_eq_ok.mp hrest
  cases hs
  exact ⟨kind, given, sheet, hsheet, hbase⟩

end RenderSettings

end Tromp
