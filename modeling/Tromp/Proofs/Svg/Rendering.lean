import Tromp.Proofs.Drawing.Colours
import Tromp.Proofs.Drawing.Doubles
import Tromp.Proofs.Drawing.Overflow
import Tromp.Svg.Rendering

/-!
# Fragments that become pictures

A fragment is moved onto its canvas twice, without a check and with it.

1.  If no checked number overflows, both ways lead to one vector (`RenderSettings.offset_checked`).
    So the vector of a picture is never one with an infinity in place of a whole number.
2.  Numbers of *moderate* fragments and settings do not overflow on the way, and none of them is too
    long, so there is a picture (`Picture.exists_render`).
3.  Layouts are moderate, where the settings and the term are (`isModerate_of_layout`).
-/

namespace Tromp

open Checked

/-! ### The vector with a check and without -/

section Maps

variable {α β : Type}

/-- The interval with other numbers. -/
def Interval.map (g : α → β) : Interval α → Interval β
  | empty => .empty
  | between a b => .between (g a) (g b)

/-- The box with other numbers. -/
def Box.map (g : α → β) (b : Box α) : Box β := ⟨b.x.map g, b.y.map g⟩

end Maps

theorem Interval.union_checked (i j : Interval Number) :
    Interval.union (i.map .ok : Interval Checked) (j.map .ok) = (i.union j).map .ok := by
  cases i with
  | empty => rfl
  | between a b =>
      cases j with
      | empty => rfl
      | between c d => simp only [map, union, least_ok, greatest_ok]

theorem Box.union_checked (a b : Box Number) :
    Box.union (a.map .ok : Box Checked) (b.map .ok) = (a.union b).map .ok := by
  simp only [map, union, Interval.union_checked]

/-- A primitive has one box, with a check and without, unless an end of it overflows. -/
theorem Primitive.bounds_checked {q : Primitive Number}
    (h : ∀ v ∈ (q.map .ok : Primitive Checked).bounds.numbers, ∃ x, v = .ok x) :
    (q.map .ok : Primitive Checked).bounds = q.bounds.map .ok := by
  cases q with
  | line s =>
      simp only [map, bounds, Box.map, Interval.spanning, List.foldl_cons, List.foldl_nil,
        Interval.map, least_ok, greatest_ok]
  | label l =>
      simp only [map, bounds, Box.numbers, Interval.numbers, List.cons_append, List.nil_append,
        List.forall_mem_cons] at h
      obtain ⟨-, hright, htop, -⟩ := h
      have hwidth : Tracks (Scalar.ofNat l.text.length * .ok l.fontSize * 0.6)
          (Scalar.ofNat l.text.length * l.fontSize * 0.6) :=
        ((tracks_ok _).mul (tracks_ok _)).mul (tracks_ok _)
      simp only [map, bounds, Box.map, Interval.map, ((tracks_ok l.x).add hwidth).eq_ok hright,
        ((tracks_ok l.y).sub (tracks_ok l.fontSize)).eq_ok htop]
  | dot d =>
      simp only [map, bounds, Box.numbers, Interval.numbers, List.cons_append, List.nil_append,
        List.forall_mem_cons] at h
      obtain ⟨hleft, hright, htop, hbottom, -⟩ := h
      simp only [map, bounds, Box.map, Interval.map,
        ((tracks_ok d.cx).sub (tracks_ok d.r)).eq_ok hleft,
        ((tracks_ok d.cx).add (tracks_ok d.r)).eq_ok hright,
        ((tracks_ok d.cy).sub (tracks_ok d.r)).eq_ok htop,
        ((tracks_ok d.cy).add (tracks_ok d.r)).eq_ok hbottom]

/-- So does a fragment. -/
theorem Fragment.bounds_checked {f : Fragment Number}
    (h : ∀ v ∈ f.checked.primitives.flatMap (·.bounds.numbers), ∃ x, v = .ok x) :
    f.checked.bounds = f.bounds.map .ok := by
  have hstep : ∀ b : Box Checked, ∀ q ∈ f.primitives,
      b.union (q.map .ok : Primitive Checked).bounds = b.union (q.bounds.map .ok) := by
    intro b q hq
    have hbounds : (q.map .ok : Primitive Checked).bounds = q.bounds.map .ok :=
      Primitive.bounds_checked fun v hv =>
        h v (List.mem_flatMap.mpr ⟨_, List.mem_map_of_mem hq, hv⟩)
    rw [hbounds]
  have hunion : ∀ (b : Box Number) (q : Primitive Number),
      (b.map .ok : Box Checked).union (q.bounds.map .ok) = (b.union q.bounds).map .ok :=
    fun b q => Box.union_checked b q.bounds
  -- The empty box, from which both unions start, has no numbers.
  calc f.checked.bounds
      = f.primitives.foldl (fun b q => b.union (q.map .ok : Primitive Checked).bounds)
          (Box.empty.map .ok) := List.foldl_map
    _ = f.primitives.foldl (fun b q => b.union (q.bounds.map .ok : Box Checked))
          (Box.empty.map .ok) := List.foldl_ext _ _ _ hstep
    _ = f.bounds.map .ok :=
        List.foldl_hom (Box.map Except.ok) hunion

/-- **Where nothing overflows the check changes nothing**: a fragment is moved onto its canvas by
one vector, whether it is computed in checked numbers or not. -/
theorem RenderSettings.offset_checked {s : RenderSettings Number} {f : Fragment Number}
    (h : offsetOverflow? s f = none) :
    s.checked.offset f.checked = (.ok (s.offset f).1, .ok (s.offset f).2) := by
  obtain ⟨hbounds, hvector⟩ := List.forall_mem_append.mp (overflow?_eq_none_iff.mp h)
  simp only [List.forall_mem_cons] at hvector
  obtain ⟨hx, hy, -⟩ := hvector
  have hpadding : Tracks f.checked.padding f.padding := tracks_ok f.padding
  have htracks : Tracks (s.checked.offset f.checked).1 (s.offset f).1 ∧
      Tracks (s.checked.offset f.checked).2 (s.offset f).2 := by
    unfold offset
    rw [Fragment.bounds_checked hbounds]
    obtain ⟨x, y⟩ := f.bounds
    cases x with
    | empty => exact ⟨hpadding, hpadding⟩
    | between xl xh =>
        cases y with
        | empty => exact ⟨hpadding, hpadding⟩
        | between yl yh =>
            have hanchor : s.checked.anchor = s.anchor := rfl
            simp only [Box.map, Interval.map, hanchor]
            cases s.anchor with
            | topLeft => exact ⟨hpadding.sub (tracks_ok xl), hpadding.sub (tracks_ok yl)⟩
            | center =>
                have hmiddle : ∀ side low high : Number,
                    Tracks ((.ok side - (.ok high - .ok low)) / Scalar.ofNat 2 - .ok low)
                      ((side - (high - low)) / Scalar.ofNat 2 - low) := fun side low high =>
                  ((((tracks_ok side).sub ((tracks_ok high).sub (tracks_ok low))).div
                    (tracks_ok _)).sub (tracks_ok low))
                exact ⟨hmiddle s.width xl xh, hmiddle s.height yl yh⟩
  exact Prod.ext (htracks.1.eq_ok hx) (htracks.2.eq_ok hy)

/-! ### Moderate fragments -/

/-- No whole number of a fragment is large, and no label is long. -/
structure Fragment.IsModerate (f : Fragment Number) : Prop where
  padding : f.padding.magnitude ≤ moderateBound
  numbers : ∀ x ∈ f.numbers, x.magnitude ≤ moderateBound
  labels : ∀ l ∈ f.labels, l.text.length ≤ moderateBound + 5

instance (f : Fragment Number) : Decidable f.IsModerate :=
  decidable_of_iff (f.padding.magnitude ≤ moderateBound ∧
      (∀ x ∈ f.numbers, x.magnitude ≤ moderateBound) ∧
      ∀ l ∈ f.labels, l.text.length ≤ moderateBound + 5)
    ⟨fun h => ⟨h.1, h.2.1, h.2.2⟩, fun h => ⟨h.padding, h.numbers, h.labels⟩⟩

theorem Checked.IsReal.within {a : Checked} (h : IsReal a) (bound : Nat) : Within bound a := by
  obtain ⟨x, rfl⟩ := h
  exact ⟨.real x, rfl, bound.zero_le⟩

theorem Checked.within_ok {x : Number} {bound : Nat} (h : x.magnitude ≤ bound) :
    Within bound (.ok x) := ⟨x, rfl, h⟩

theorem digitBound_bounds : 3 * moderateBound < digitBound := by decide +kernel

namespace Primitive

/-- The box around a primitive has moderate ends. -/
theorem within_bounds {q : Primitive Number}
    (hnumbers : ∀ x ∈ q.numbers, x.magnitude ≤ moderateBound)
    (htext : ∀ l ∈ q.label?, l.text.length ≤ moderateBound + 5) :
    ∀ v ∈ (q.map .ok : Primitive Checked).bounds.numbers, Within (2 * moderateBound) v := by
  have hbounds := moderateBound_bounds
  have hproduct := moderateBound_mul_lt
  have hsum : ∀ {a b : Checked}, Within moderateBound a → Within moderateBound b →
      Within (2 * moderateBound) (a + b) ∧ Within (2 * moderateBound) (a - b) := fun ha hb =>
    ⟨(ha.add hb (by omega) (by omega)).mono (by omega),
      (ha.sub hb (by omega) (by omega)).mono (by omega)⟩
  cases q with
  | line s =>
      simp only [numbers, List.forall_mem_cons] at hnumbers
      obtain ⟨hx1, hy1, hx2, hy2, -⟩ := hnumbers
      have hends : ∀ {x y : Number}, x.magnitude ≤ moderateBound → y.magnitude ≤ moderateBound →
          Within (2 * moderateBound) (Scalar.least (.ok x : Checked) (.ok y)) ∧
            Within (2 * moderateBound) (Scalar.greatest (.ok x : Checked) (.ok y)) := by
        intro x y hx hy
        have hx' : Within (2 * moderateBound) (.ok x) := within_ok (by omega)
        have hy' : Within (2 * moderateBound) (.ok y) := within_ok (by omega)
        constructor
        · rcases Scalar.least_eq (.ok x : Checked) (.ok y) with h | h <;> rw [h] <;> assumption
        · rcases Scalar.greatest_eq (.ok x : Checked) (.ok y) with h | h <;> rw [h] <;> assumption
      simp only [map, bounds, Box.numbers, Interval.spanning, List.foldl_cons, List.foldl_nil,
        Interval.numbers, List.cons_append, List.nil_append, List.forall_mem_cons]
      exact ⟨(hends hx1 hx2).1, (hends hx1 hx2).2, (hends hy1 hy2).1, (hends hy1 hy2).2,
        List.forall_mem_nil _⟩
  | label l =>
      simp only [numbers, List.forall_mem_cons] at hnumbers
      obtain ⟨hx, hy, hfont, -⟩ := hnumbers
      have hletters : Fits (Scalar.ofNat l.text.length * (.ok l.fontSize : Checked)) := by
        have hlength := htext l rfl
        refine ((within_ofNat _).mul (within_ok hfont) (by omega) (by omega)).fits ?_
        have hmul := Nat.mul_le_mul_right moderateBound hlength
        rw [Nat.add_mul] at hmul
        omega
      have hwidth : IsReal (Scalar.ofNat l.text.length * (.ok l.fontSize : Checked) * 0.6) :=
        hletters.mul (isReal_decimal _ _ _)
      have hright : IsReal ((.ok l.x : Checked) +
          Scalar.ofNat l.text.length * (.ok l.fontSize : Checked) * 0.6) :=
        (within_ok hx).fits_moderate.add_real hwidth
      simp only [map, bounds, Box.numbers, Interval.numbers, List.cons_append, List.nil_append,
        List.forall_mem_cons]
      exact ⟨within_ok (by omega), hright.within _, (hsum (within_ok hy) (within_ok hfont)).2,
        within_ok (by omega), List.forall_mem_nil _⟩
  | dot d =>
      simp only [numbers, List.forall_mem_cons] at hnumbers
      obtain ⟨hx, hy, hr, -⟩ := hnumbers
      have hacross := hsum (within_ok hx) (within_ok hr)
      have hdown := hsum (within_ok hy) (within_ok hr)
      simp only [map, bounds, Box.numbers, Interval.numbers, List.cons_append, List.nil_append,
        List.forall_mem_cons]
      exact ⟨hacross.2, hacross.1, hdown.2, hdown.1, List.forall_mem_nil _⟩

end Primitive

/-- What holds of the ends of two intervals holds of the ends of their union. -/
theorem Interval.forall_numbers_union {P : Checked → Prop} {i j : Interval Checked}
    (hi : ∀ v ∈ i.numbers, P v) (hj : ∀ v ∈ j.numbers, P v) : ∀ v ∈ (i.union j).numbers, P v := by
  cases i with
  | empty => exact hj
  | between a b =>
      cases j with
      | empty => exact hi
      | between c d =>
          simp only [union, numbers, List.forall_mem_cons] at hi hj ⊢
          refine ⟨?_, ?_, List.forall_mem_nil _⟩
          · rcases Scalar.least_eq a c with h | h <;> rw [h]
            · exact hi.1
            · exact hj.1
          · rcases Scalar.greatest_eq b d with h | h <;> rw [h]
            · exact hi.2.1
            · exact hj.2.1

theorem Box.forall_numbers_union {P : Checked → Prop} {a b : Box Checked}
    (ha : ∀ v ∈ a.numbers, P v) (hb : ∀ v ∈ b.numbers, P v) : ∀ v ∈ (a.union b).numbers, P v := by
  obtain ⟨hax, hay⟩ := List.forall_mem_append.mp ha
  obtain ⟨hbx, hby⟩ := List.forall_mem_append.mp hb
  exact List.forall_mem_append.mpr
    ⟨Interval.forall_numbers_union hax hbx, Interval.forall_numbers_union hay hby⟩

namespace Fragment

variable {f : Fragment Number}

theorem IsModerate.within_bounds_of_mem (h : f.IsModerate) {q : Primitive Number}
    (hq : q ∈ f.primitives) :
    ∀ v ∈ (q.map .ok : Primitive Checked).bounds.numbers, Within (2 * moderateBound) v :=
  Primitive.within_bounds (fun x hx => h.numbers x (List.mem_flatMap.mpr ⟨q, hq, hx⟩))
    fun l hl => h.labels l (List.mem_filterMap.mpr ⟨q, hq, hl⟩)

/-- The box around a moderate fragment has moderate ends. -/
theorem IsModerate.within_bounds (h : f.IsModerate) :
    ∀ v ∈ f.checked.bounds.numbers, Within (2 * moderateBound) v := by
  refine List.foldlRecOn
    (motive := fun b : Box Checked => ∀ v ∈ b.numbers, Within (2 * moderateBound) v)
    f.checked.primitives _ (List.forall_mem_nil _) ?_
  intro b hb q hq
  obtain ⟨own, hown, rfl⟩ := List.mem_map.mp hq
  exact Box.forall_numbers_union hb (h.within_bounds_of_mem hown)

end Fragment

namespace RenderSettings

variable {s : RenderSettings Number} {f : Fragment Number}

/-- The vector that moves a moderate fragment is moderate. -/
theorem within_offset (hs : s.IsModerate) (hf : f.IsModerate) :
    ∀ v ∈ [(s.checked.offset f.checked).1, (s.checked.offset f.checked).2],
      Within (3 * moderateBound) v := by
  have hbounds := moderateBound_bounds
  have hwithin := hs.within
  simp only [LayoutSettings.numbers, List.forall_mem_cons] at hwithin
  obtain ⟨-, -, -, hwidth, hheight, -⟩ := hwithin
  have hpadding : Within moderateBound f.checked.padding := within_ok hf.padding
  have hcorner : ∀ {low : Checked}, Within (2 * moderateBound) low →
      Within (3 * moderateBound) (f.checked.padding - low) := fun hlow =>
    (hpadding.sub hlow (by omega) (by omega)).mono (by omega)
  have hmiddle : ∀ {side low high : Checked}, Within moderateBound side →
      Within (2 * moderateBound) low → Within (2 * moderateBound) high →
      Within (3 * moderateBound) ((side - (high - low)) / Scalar.ofNat 2 - low) := by
    intro side low high hside hlow hhigh
    have hlength := hhigh.sub hlow (by omega) (by omega)
    have hfree : Fits (side - (high - low)) :=
      (hside.sub hlength (by omega) (by omega)).fits (by omega)
    have hhalf : IsReal ((side - (high - low)) / Scalar.ofNat 2) :=
      hfree.div (fits_ofNat (by omega))
    exact (hhalf.sub (hlow.fits (by omega))).within _
  have hbox := hf.within_bounds
  simp only [List.forall_mem_cons]
  unfold offset
  generalize f.checked.bounds = box at hbox ⊢
  obtain ⟨x, y⟩ := box
  cases x with
  | empty => exact ⟨hpadding.mono (by omega), hpadding.mono (by omega), List.forall_mem_nil _⟩
  | between xl xh =>
      cases y with
      | empty => exact ⟨hpadding.mono (by omega), hpadding.mono (by omega), List.forall_mem_nil _⟩
      | between yl yh =>
          simp only [Box.numbers, Interval.numbers, List.cons_append, List.nil_append,
            List.forall_mem_cons] at hbox
          obtain ⟨hxl, hxh, hyl, hyh, -⟩ := hbox
          cases s.checked.anchor with
          | topLeft => exact ⟨hcorner hxl, hcorner hyl, List.forall_mem_nil _⟩
          | center =>
              exact ⟨hmiddle hwidth hxl hxh, hmiddle hheight hyl hyh, List.forall_mem_nil _⟩

end RenderSettings

section Moderate

variable {s : RenderSettings Number} {f : Fragment Number}

/-- Moving a moderate fragment onto a moderate canvas does not overflow. -/
theorem offsetOverflow?_eq_none (hs : s.IsModerate) (hf : f.IsModerate) :
    offsetOverflow? s f = none := by
  have hbounds := moderateBound_bounds
  refine overflow?_eq_none (List.forall_mem_append.mpr ⟨?_, ?_⟩)
  · intro v hv
    obtain ⟨q, hq, hv⟩ := List.mem_flatMap.mp hv
    obtain ⟨own, hown, rfl⟩ := List.mem_map.mp hq
    exact (hf.within_bounds_of_mem hown v hv).fits (by omega)
  · exact fun v hv => (RenderSettings.within_offset hs hf v hv).fits (by omega)

theorem Number.isWritable_of_magnitude_le {x : Number} (h : x.magnitude ≤ 3 * moderateBound) :
    x.isWritable = true := by
  have hdigits := digitBound_bounds
  cases x with
  | whole n => exact decide_eq_true (Nat.lt_of_le_of_lt h hdigits)
  | real r => rfl

/-- **Moderate fragments become pictures.** -/
theorem renderFault?_eq_none (hs : s.IsModerate) (hf : f.IsModerate) : renderFault? s f = none := by
  have hoverflow := offsetOverflow?_eq_none hs hf
  have hoffset := RenderSettings.within_offset hs hf
  rw [RenderSettings.offset_checked hoverflow] at hoffset
  have hvector : ∀ x ∈ [(s.offset f).1, (s.offset f).2], x.magnitude ≤ 3 * moderateBound := by
    intro x hx
    obtain ⟨y, hy, hle⟩ := hoffset (.ok x) (by simpa using hx)
    rwa [Except.ok.inj hy]
  have hsettings := hs
  simp only [LayoutSettings.IsModerate, LayoutSettings.numbers, List.forall_mem_cons] at hsettings
  obtain ⟨-, -, -, hwidth, hheight, -⟩ := hsettings
  have hwritten : ∀ x ∈ s.writtenNumbers f, x.magnitude ≤ 3 * moderateBound := by
    refine List.forall_mem_append.mpr ⟨?_, fun x hx => (hf.numbers x hx).trans (by omega)⟩
    exact List.forall_mem_cons.mpr ⟨hwidth.trans (by omega),
      List.forall_mem_cons.mpr ⟨hheight.trans (by omega), hvector⟩⟩
  have hwritable : (s.writtenNumbers f).all Number.isWritable = true :=
    List.all_eq_true.mpr fun x hx => Number.isWritable_of_magnitude_le (hwritten x hx)
  rw [renderFault?, hoverflow]
  exact if_pos hwritable

/-- What a picture is made from. -/
theorem Picture.render_eq_ok_iff {p : Picture} :
    render s f = .ok p ↔ renderFault? s f = none ∧ p = ofFragment s f := by
  unfold render
  cases renderFault? s f with
  | some fault => exact ⟨nofun, nofun⟩
  | none => exact ⟨fun h => ⟨rfl, (Except.ok.inj h).symm⟩, fun h => congrArg Except.ok h.2.symm⟩

/-- Why a fragment has no picture. -/
theorem Picture.render_eq_error_iff {fault : RenderFault} :
    render s f = .error fault ↔ renderFault? s f = some fault := by
  unfold render
  cases renderFault? s f with
  | some own => exact ⟨fun h => congrArg some (Except.error.inj h),
      fun h => congrArg Except.error (Option.some.inj h)⟩
  | none => exact ⟨nofun, nofun⟩

/-- A fragment that has a picture was moved onto its canvas without overflow. -/
theorem offsetOverflow?_eq_none_of_render (h : renderFault? s f = none) :
    offsetOverflow? s f = none := by
  unfold renderFault? at h
  cases hoverflow : offsetOverflow? s f with
  | none => rfl
  | some fault =>
      rw [hoverflow] at h
      cases h

theorem Picture.exists_render (hs : s.IsModerate) (hf : f.IsModerate) :
    ∃ p, render s f = .ok p :=
  ⟨_, Picture.render_eq_ok_iff.mpr ⟨renderFault?_eq_none hs hf, rfl⟩⟩

end Moderate

/-! ### Layouts -/

/-- The labels of a term have a few letters more than the term weighs, at most. -/
theorem Painter.showsTexts_short {α : Type} (p : Painter α) {bound : Nat} {t : Term}
    (h : t.weight ≤ bound) : p.ShowsTexts (fun text => text.length ≤ bound + 5) t := by
  induction t using Term.induction with
  | var name index free =>
      rintro i ⟨⟩
      exact (length_variableText_le.trans h).trans (Nat.le_add_right bound 5)
  | lam name numeral body ih =>
      exact ⟨length_abstractionText_le.trans (Nat.add_le_add_right h 5),
        ih (Tree.weight_body_le.trans h)⟩
  | app f a ihf iha =>
      have hf := Tree.weight_func_le.trans h
      refine ⟨fun x hx => ?_, ihf hf, iha (Tree.weight_arg_le.trans h)⟩
      exact ((length_operator_le hx).trans hf).trans (Nat.le_add_right bound 5)

theorem Primitive.IsLight.magnitude_le {bound : Nat} {q : Primitive Number} (h : q.IsLight bound) :
    ∀ x ∈ q.numbers, x.magnitude ≤ bound := by
  obtain ⟨hcoordinates, hextent⟩ := h
  have hlight : ∀ x ∈ q.coordinates, x.magnitude ≤ bound :=
    fun x hx => (hcoordinates x hx).trans_le bound.zero_le
  have hnumbers : q.numbers = q.coordinates ++ [q.extent] := by cases q <;> rfl
  rw [hnumbers]
  exact List.forall_mem_append.mpr ⟨hlight, List.forall_mem_singleton.mpr hextent⟩

/-- **Layouts are moderate**, where the settings and the term are. -/
theorem isModerate_of_layout {s : LayoutSettings Number} {t : Term} {d : Fragment Number}
    (hs : s.IsModerate) (hweight : t.weight < moderateBound) (hd : layout s t = .ok d) :
    d.IsModerate := by
  have hline : s.lineWidth.magnitude ≤ moderateBound := hs _ (by simp [LayoutSettings.numbers])
  have hfont : 14 ≤ moderateBound := by
    have := moderateBound_bounds
    omega
  obtain ⟨hlight, hpadding⟩ := allLight_of_layout hline hfont hd
  have htexts : Painter.AllPainted (fun _ => True) (fun text => text.length ≤ moderateBound + 5)
      d.primitives :=
    allPainted_of_layout (fun _ _ => trivial) trivial (Painter.showsTexts_short _ hweight.le) hd
  refine ⟨hpadding.magnitude_le _, ?_, ?_⟩
  · intro x hx
    obtain ⟨q, hq, hx⟩ := List.mem_flatMap.mp hx
    exact (hlight q hq).magnitude_le x hx
  · intro l hl
    obtain ⟨q, hq, hview⟩ := List.mem_filterMap.mp hl
    cases q <;> cases hview
    exact (htexts _ hq).2

end Tromp
