import Tromp.Grid.Sketch
import Tromp.Proofs.Arithmetic.Exponents
import Tromp.Proofs.Arithmetic.Signs
import Tromp.Proofs.Drawing.Doubles
import Tromp.Proofs.Grid.Limits
import Tromp.Proofs.Svg.Accounting

/-!
# Canvases that scale

The lines of a document have finite ends, and the factors from a canvas to its grid are doubles.  If
the factors are finite as well, each end has a cell, since a product of finite doubles is a number,
however large it is (`Raster.hasCell_of_isFinite`).

The factors of a canvas whose sides are at least one are finite (`Raster.isFinite_factors`): a grid
has few columns, and a quotient by such a side is not large.  The second factor also needs the rows.
They are rounded from a number without a sign, so there are not fewer than none, and a grid that is
too high is squeezed.

So every document whose canvas is at least one wide and one high has a sketch
(`Sketch.exists_ofMarkup`).
-/

namespace Tromp

open Number

/-! ### Quotients -/

/-- What is a number is equal to itself. -/
theorem Number.le_self {x : Float} (h : x ≠ .nan) : Number.real x ≤ .real x := by
  have horder : order? (.real x) (.real x) =
      if x < x then some .lt else if x < x then some .gt else if x == x then some .eq else none :=
    rfl
  rw [if_pos (Float.beq_self_iff.mpr h)] at horder
  change le _ _ = true
  by_cases hlt : x < x
  · rw [if_pos hlt] at horder
    simp [le, horder]
  · rw [if_neg hlt, if_neg hlt] at horder
    simp [le, horder]

/-- Whole numbers that are not large are divided as doubles. -/
theorem Number.div_eq {x y : Number} (hx : x.magnitude ≤ twoTo 53) (hy : y.magnitude ≤ twoTo 53) :
    x / y = .real (x.toFloat / y.toFloat) := by
  cases x with
  | whole a =>
      cases y with
      | whole b => exact congrArg real (if_pos (.inr ⟨hx, hy⟩))
      | real y => rfl
  | real x => cases y <;> rfl

/-- A side of a canvas that is at least one.  It is a double or not large. -/
structure Number.IsSide (side : Number) : Prop where
  magnitude : side.magnitude ≤ twoTo 53
  finite : side.toFloat.isFinite = true
  one_le : 1.0 ≤ side.toFloat

theorem Number.IsSide.hasNoSign {side : Number} (h : side.IsSide) :
    HasNoSign side.toFloat.toModel.unpack := by
  obtain ⟨m, e, hm, hunpack, -⟩ := exponent_of_one_le h.finite h.one_le
  rw [hunpack]
  rfl

/-- A whole number by a side. -/
theorem Number.IsSide.exists_div_eq {side : Number} (h : side.IsSide) {n : Nat} (hn : n ≤ 700) :
    ∃ x, Number.whole n / side = .real x ∧ ExponentLE 447 x.toModel.unpack := by
  have hsmall : n < 2 ^ 53 := hn.trans_lt (by decide)
  have hnearest := exponentLE_nearest hsmall
  exact ⟨_, div_eq hsmall.le h.magnitude,
    exponentLE_div hnearest h.finite h.one_le (by omega) (by omega)⟩

theorem unpack_half : (0.5 : Float).toModel.unpack = .finite .positive (2 ^ 52) (-53) (by decide) :=
  rfl

theorem unpack_boost : (1.4 : Float).toModel.unpack =
    .finite .positive 6305039478318694 (-52) (by decide) := rfl

namespace Raster

/-! ### Factors -/

section Sides

variable {width height : Number} (hwidth : width.IsSide) (hheight : height.IsSide) {cols : Nat}

include hwidth hheight

/-- The rows that a canvas asks for are a number without a sign. -/
theorem exists_requestedRows_eq (hcols : cols ≤ 175) :
    ∃ r, requestedRows width height cols = .real r ∧ HasNoSign r.toModel.unpack := by
  have hcolumns : HasNoSign (Binary.nearest cols).toModel.unpack :=
    hasNoSign_nearest (hcols.trans_lt (by decide))
  have hhalf : HasNoSign (0.5 : Float).toModel.unpack := by
    rw [unpack_half]
    rfl
  have hboost : HasNoSign (1.4 : Float).toModel.unpack := by
    rw [unpack_boost]
    rfl
  have hquotient := (hheight.hasNoSign.div hwidth.hasNoSign).unpack_pack
  refine ⟨height.toFloat / width.toFloat * Binary.nearest cols * 0.5 * 1.4, ?_, ?_⟩
  · unfold requestedRows
    rw [div_eq hheight.magnitude hwidth.magnitude]
    rfl
  · exact (((hquotient.mul hcolumns).unpack_pack.mul hhalf).unpack_pack.mul hboost).unpack_pack

/-- So there are not fewer rows than none, and not more than four for each column. -/
theorem exists_rows_eq (hcols : cols ≤ 175) :
    ∃ n : Nat, n ≤ 700 ∧ rows width height cols = (n : Int) + 1 := by
  unfold rows
  by_cases hsqueezed : isSqueezed width height cols = true
  · rw [if_pos hsqueezed]
    exact ⟨rowsPerColumn * cols, by unfold rowsPerColumn; omega, rfl⟩
  · rw [if_neg hsqueezed]
    obtain ⟨r, hr, hsign⟩ := exists_requestedRows_eq hwidth hheight hcols
    have hle : ¬ Number.whole (rowsPerColumn * cols : Nat) < .real r := by
      rw [← hr]
      exact mt decide_eq_true hsqueezed
    obtain ⟨hnonneg, hmost⟩ := ceil_bounds hsign hle
    rw [hr]
    refine ⟨(Scalar.ceil (Number.real r)).toNat, ?_, ?_⟩
    · unfold rowsPerColumn at hmost
      omega
    · rw [Int.toNat_of_nonneg hnonneg]

/-- **The factors of a canvas** whose sides are at least one are finite. -/
theorem isFinite_factors (hcols : cols ≤ 175) :
    ∃ sx sy : Float, factors width height cols (rows width height cols) = (.real sx, .real sy) ∧
      sx.isFinite = true ∧ sy.isFinite = true := by
  obtain ⟨sx, hsx, hx⟩ := hwidth.exists_div_eq (hcols.trans (by decide))
  obtain ⟨n, hn, hrows⟩ := exists_rows_eq hwidth hheight hcols
  obtain ⟨sy, hsy, hy⟩ := hheight.exists_div_eq hn
  have hboosted : ExponentLE 556 (sx * 0.5 * 1.4).toModel.unpack := by
    have hhalf : ExponentLE (-53) (0.5 : Float).toModel.unpack := by
      rw [unpack_half]
      exact le_refl _
    have hboost : ExponentLE (-52) (1.4 : Float).toModel.unpack := by
      rw [unpack_boost]
      exact le_refl _
    have hhalved := exponentLE_mul hx hhalf (by omega) (by omega)
    exact exponentLE_mul hhalved hboost (by omega) (by omega)
  have hfactors : factors width height cols (rows width height cols) =
      (.real sx, Scalar.least (.real (sx * 0.5 * 1.4)) (.real sy)) := by
    unfold factors
    rw [hrows, Int.add_sub_cancel]
    change (Number.whole cols / width, Scalar.least (Number.whole cols / width * 0.5 * 1.4)
      (Number.whole n / height)) = _
    rw [hsx, hsy]
    rfl
  rcases Scalar.least_eq (Number.real (sx * 0.5 * 1.4)) (.real sy) with hleast | hleast
  · exact ⟨sx, sx * 0.5 * 1.4, hleast ▸ hfactors, hx.isFinite, hboosted.isFinite⟩
  · exact ⟨sx, sy, hleast ▸ hfactors, hx.isFinite, hy.isFinite⟩

end Sides

/-! ### Cells -/

/-- A coordinate that is finite has a cell, if the factor is finite. -/
theorem hasCell_of_isFinite {x factor : Float} (hx : x.isFinite = true)
    (hfactor : factor.isFinite = true) : hasCell (Number.real x) (.real factor) = true := by
  have hhalf : (0.5 : Float).isFinite = true :=
    congrArg Float.Model.UnpackedFloat.isFinite unpack_half
  exact decide_eq_true (le_self (add_ne_nan (mul_ne_nan hx hfactor) hhalf))

/-- On a canvas that is almost nothing wide the factor is infinite, and zero has no cell. -/
example : hasCell (Number.real 0.0) (factors (.real 1e-320) (.real 800.0) 48 193).1 = false := by
  decide +kernel

/-- Lines with finite ends have a raster on a canvas whose sides are at least one. -/
theorem ofLines?_eq {lines : List (Ends Number)} {width height : Number}
    (hlines : ∀ l ∈ lines, ∀ x ∈ [l.x1, l.y1, l.x2, l.y2], x.IsReal ∧ x.isFinite = true)
    (hwidth : width.IsSide) (hheight : height.IsSide) (terminal : Option Int) :
    ofLines? lines width height terminal = .ok (ofLines lines width height terminal) := by
  obtain ⟨sx, sy, hfactors, hsx, hsy⟩ := isFinite_factors hwidth hheight
    (columns_le width height lines.length terminal)
  have hcell : ∀ {x : Number} {factor : Float}, x.IsReal ∧ x.isFinite = true →
      factor.isFinite = true → hasCell x (.real factor) = true := by
    intro x factor hx hfactor
    obtain ⟨⟨r, rfl⟩, hr⟩ := hx
    exact hasCell_of_isFinite hr hfactor
  refine if_pos (List.all_eq_true.mpr fun l hl => ?_)
  have hends := hlines l hl
  simp only [List.forall_mem_cons] at hends
  obtain ⟨hx1, hy1, hx2, hy2, -⟩ := hends
  rw [hfactors]
  simp only [hasCells, hcell hx1 hsx, hcell hy1 hsy, hcell hx2 hsx, hcell hy2 hsy, Bool.and_self]

end Raster

/-! ### Documents -/

namespace Svg

/-- The ends of the lines that are read are finite doubles. -/
theorem isFinite_of_mem_readLines {root : Xml.Element} {l : Ends Number}
    (h : l ∈ (readLines root).1) :
    ∀ x ∈ [l.x1, l.y1, l.x2, l.y2], x.IsReal ∧ x.isFinite = true := by
  rw [fst_readLines] at h
  obtain ⟨result, hresult, hl⟩ := List.mem_filterMap.mp h
  obtain ⟨occurrence, -, rfl⟩ := List.mem_map.mp hresult
  have hends : occurrence.ends = .ok l := by
    cases hresult : occurrence.ends with
    | error fault =>
        rw [hresult] at hl
        cases hl
    | ok ends =>
        rw [hresult] at hl
        exact congrArg Except.ok (Option.some.inj hl)
  obtain ⟨x1, y1, x2, y2, hx1, hy1, hx2, hy2, rfl, hfinite⟩ := endsOf_eq_ok_iff.mp hends
  have hcoordinate : ∀ {key : String} {x : Number}, coordinateOf occurrence.element key = .ok x →
      x.IsReal := by
    intro key x hx
    unfold coordinateOf at hx
    cases hvalue : occurrence.element.attribute? key with
    | none =>
        rw [hvalue] at hx
        cases hx
    | some text =>
        rw [hvalue] at hx
        cases hdouble : parseDouble text with
        | error fault =>
            simp only [hdouble] at hx
            cases hx
        | ok r =>
            simp only [hdouble] at hx
            exact ⟨r, (Except.ok.inj hx).symm⟩
  simp only [List.forall_mem_cons] at hfinite ⊢
  obtain ⟨hf1, hf2, hf3, hf4, -⟩ := hfinite
  exact ⟨⟨(hcoordinate hx1).add _, hf1⟩, ⟨(hcoordinate hy1).add _, hf2⟩,
    ⟨(hcoordinate hx2).add _, hf3⟩, ⟨(hcoordinate hy2).add _, hf4⟩, List.forall_mem_nil _⟩

/-- A length is the default or a finite double. -/
theorem length_cases (value : Option String) (default : Number) :
    length value default = default ∨
    ∃ x, length value default = .real x ∧ x.isFinite = true := by
  cases value with
  | none => exact .inl rfl
  | some text =>
      simp only [length, Option.bind_eq_bind, Option.bind_some]
      split
      · exact .inl rfl
      · cases leadingDecimal? (stripBlanks text.toList) with
        | none => exact .inl rfl
        | some cs =>
            simp only [Option.bind_some]
            cases readDouble? (String.ofList cs) with
            | none => exact .inl rfl
            | some x =>
                simp only [Option.bind_some]
                split
                next hx => exact .inr ⟨x, rfl, (Bool.and_eq_true_iff.mp hx).2⟩
                next => exact .inl rfl

/-- So it is a side, if it is at least one. -/
theorem isSide_length {value : Option String} {n : Nat} (hn : n < 2 ^ 53)
    (h : 1.0 ≤ (length value (.whole n)).toFloat) : (length value (.whole n)).IsSide := by
  rcases length_cases value (.whole n) with hlength | ⟨x, hlength, hx⟩
  · have hmagnitude : (Number.whole n).magnitude ≤ 2 ^ 53 := (Int.natAbs_natCast n).trans_le hn.le
    have hfinite : (Number.whole n).toFloat.isFinite = true := (exponentLE_nearest hn).isFinite
    rw [hlength] at h ⊢
    exact ⟨hmagnitude, hfinite, h⟩
  · rw [hlength] at h ⊢
    exact ⟨Nat.zero_le _, hx, h⟩

end Svg

namespace LineArt

variable {markup : String} {art : LineArt}

theorem exists_grid? (h : ofMarkup? markup = some art) (hwidth : 1.0 ≤ art.width.toFloat)
    (hheight : 1.0 ≤ art.height.toFloat) (terminal : Option Int) :
    ∃ grid, art.grid? terminal = .ok grid := by
  obtain ⟨root, -, rfl⟩ := Option.map_eq_some_iff.mp h
  exact ⟨_, Raster.ofLines?_eq (fun l hl => Svg.isFinite_of_mem_readLines hl)
    (Svg.isSide_length (by decide) hwidth) (Svg.isSide_length (by decide) hheight) terminal⟩

end LineArt

/-- **A document whose canvas is at least one wide and one high has a sketch**, for every terminal.
So has one that cannot be read. -/
theorem Sketch.exists_ofMarkup {markup : String}
    (h : ∀ art, LineArt.ofMarkup? markup = some art →
      1.0 ≤ art.width.toFloat ∧ 1.0 ≤ art.height.toFloat) (terminal : Option Int) :
    ∃ sketch, ofMarkup markup terminal = .ok sketch := by
  unfold ofMarkup
  cases hart : LineArt.ofMarkup? markup with
  | none => exact ⟨_, rfl⟩
  | some art =>
      obtain ⟨hwidth, hheight⟩ := h art hart
      obtain ⟨grid, hgrid⟩ := LineArt.exists_grid? hart hwidth hheight terminal
      simp only [hgrid]
      exact ⟨_, rfl⟩

end Tromp
