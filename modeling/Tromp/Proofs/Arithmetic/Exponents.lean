import Tromp.Proofs.Arithmetic.Finite

/-!
# Exponents of doubles

A double with a small exponent is not large.  How large it is does not matter here, as long as the
exponents of results do not grow much.

1.  Rounding cuts a mantissa to 53 bits, and each bit that is cut counts one in the exponent
    (`exponentLE_roundWithAccuracy`).
2.  A finite float with an exponent up to 971 is packed into a finite double
    (`exponentLE_unpack_pack`).
3.  So a product has at most the sum of the exponents and 107 more, a quotient by a double that is
    at least one has at most 265 more, and a natural number at most 182 (`exponentLE_mul`,
    `exponentLE_div`, `exponentLE_nearest`).

The bounds are far from sharp.  They leave room for a few operations one after another.
-/

namespace Tromp

open Float.Model

open UnpackedFloat hiding normalize

/-- A float is zero, or it is finite and its exponent is at most this. -/
def ExponentLE (k : Int) : UnpackedFloat → Prop
  | .zero _ => True
  | .finite _ _ e _ => e ≤ k
  | _ => False

variable {u : UnpackedFloat} {k l : Int}

theorem ExponentLE.isFinite (h : ExponentLE k u) : u.isFinite = true := by
  cases u with
  | infinity => exact h.elim
  | notANumber => exact h.elim
  | zero => rfl
  | finite => rfl

/-! ### Rounding -/

theorem mantissa_shiftRightOne_le (em : ExtendedMantissa) :
    em.shiftRightOne.mantissa ≤ em.mantissa := Nat.div_le_self _ _

theorem mantissa_shiftRight_le (em : ExtendedMantissa) (n : Nat) :
    (em >>> n).mantissa ≤ em.mantissa := by
  induction n with
  | zero => exact Nat.le_refl _
  | succ n ih => exact (mantissa_shiftRightOne_le _).trans ih

theorem roundedMantissa_le (em : ExtendedMantissa) : em.roundedMantissa ≤ em.mantissa + 1 := by
  unfold ExtendedMantissa.roundedMantissa Accuracy.roundToNearestEven
  split <;> omega

theorem mantissa_ofMantissaAndAccuracy (m : Nat) (a : Accuracy) :
    (ExtendedMantissa.ofMantissaAndAccuracy m a).mantissa = m := by
  unfold ExtendedMantissa.ofMantissaAndAccuracy
  split <;> rfl

/-- The exponent that a mantissa of some bits should have. -/
theorem targetExponent_le {m j : Nat} {e : Int} (hm : m < 2 ^ j) (hj : 0 < j) :
    Format.binary64.targetExponent (totalExponent m e) ≤ max (j + e - 53) (-1074) := by
  have hlog : m.log2 < j := by
    by_cases hzero : m = 0
    · rwa [hzero, Nat.log2_zero]
    · exact (Nat.log2_lt hzero).mpr hm
  have hmin : Format.binary64.minExponent = -1074 := rfl
  have hbits : Format.binary64.mantissaBits = 53 := rfl
  unfold Format.targetExponent totalExponent
  rw [hmin, hbits]
  omega

/-- Shifting a mantissa to its place makes it no greater. -/
theorem shiftToTargetExponent_le {m j : Nat} {e : Int} (a : Accuracy) (hm : m < 2 ^ j)
    (hj : 0 < j) :
    (shiftToTargetExponent Format.binary64 m e a).1.mantissa ≤ m ∧
      (shiftToTargetExponent Format.binary64 m e a).2 ≤ max e (max (j + e - 53) (-1074)) := by
  have htarget := targetExponent_le (e := e) hm hj
  refine ⟨?_, ?_⟩
  · refine (mantissa_shiftRight_le _ _).trans ?_
    rw [mantissa_ofMantissaAndAccuracy]
  · simp only [shiftToTargetExponent, shiftToExponent]
    omega

/-- Rounding a mantissa of some bits does not raise the exponent by more than twice the bits that
are cut, and by one where a carry adds a bit. -/
theorem exponentLE_roundWithAccuracy {m j : Nat} {e : Int} (s : Sign) (a : Accuracy)
    (hm : m < 2 ^ j) (hj : 53 ≤ j) (hk : e + 2 * j - 105 ≤ k) (hlow : j - 1126 ≤ k) :
    ExponentLE k (roundWithAccuracy Format.binary64 s m e a) := by
  obtain ⟨hmantissa, hexponent⟩ := shiftToTargetExponent_le (e := e) a hm (by omega)
  -- The carry may add a bit, so the mantissa is shifted once more.
  have hrounded :
      (shiftToTargetExponent Format.binary64 m e a).1.roundedMantissa < 2 ^ (j + 1) := by
    have hle := roundedMantissa_le (shiftToTargetExponent Format.binary64 m e a).1
    rw [Nat.pow_succ]
    omega
  obtain ⟨-, hfinal⟩ := shiftToTargetExponent_le
    (e := (shiftToTargetExponent Format.binary64 m e a).2) .exact hrounded (by omega)
  simp only [roundWithAccuracy]
  split
  · trivial
  · change _ ≤ k
    omega

/-! ### Packing -/

/-- What is read of the bits of a double whose exponent is not the greatest one. -/
theorem exponentLE_unpack_packComponents {b : BitVec 11} (s : Sign) (m : BitVec 52)
    (hfinite : b.toNat < 2047) (hk : (b.toNat : Int) - 1075 ≤ k) (hlow : -1074 ≤ k) :
    ExponentLE k (UnpackedFloat.unpack Format.binary64 (packComponents Format.binary64 s b m)) := by
  have hbias : (Format.binary64.exponentBias : Int) = 1023 := rfl
  have hones : ¬ b = -1#11 := by
    rintro rfl
    exact absurd hfinite (by decide)
  simp only [UnpackedFloat.unpack, unpackMantissa_packComponents, unpackExponent_packComponents,
    hbias, if_neg hones]
  split
  next hzero =>
    split
    · trivial
    · subst hzero
      exact hlow
  next hnonzero =>
    change (b.toNat : Int) - (1023 + 52) ≤ k
    omega

/-- What is packed and unpacked has no greater exponent. -/
theorem exponentLE_unpack_pack (h : ExponentLE k u) (hlow : -1074 ≤ k) (hhigh : k ≤ 971) :
    ExponentLE k (pack u).unpack := by
  change ExponentLE k (UnpackedFloat.unpack Format.binary64 (UnpackedFloat.pack Format.binary64 u))
  cases u with
  | infinity => exact h.elim
  | notANumber => exact h.elim
  | zero s =>
      rw [UnpackedFloat.pack, unpack_packedZero]
      trivial
  | finite s m e hm =>
      have hbias : (Format.binary64.exponentBias : Int) = 1023 := rfl
      have he : e ≤ k := h
      simp only [UnpackedFloat.pack, hbias]
      generalize hbiased : (e + 1023 + (52 : Nat)).toNat = biased
      have hsmall : biased < 2047 := by omega
      rw [if_neg (by omega : ¬ 2 ^ 11 ≤ biased + 1)]
      split
      · have hvalue : (BitVec.ofNat 11 biased).toNat = biased :=
          BitVec.toNat_ofNat biased 11 ▸ Nat.mod_eq_of_lt (by omega)
        exact exponentLE_unpack_packComponents s _ (by omega) (by omega) hlow
      · exact exponentLE_unpack_packComponents s _ (by decide) (by simp; omega) hlow

/-- The mantissa of a double has at most 53 bits. -/
theorem mantissa_lt_of_unpack {x : Float.Model} {s : Sign} {m : Nat} {e : Int} {hm : 0 < m}
    (h : x.unpack = .finite s m e hm) : m < 2 ^ 53 := by
  simp only [Float.Model.unpack, UnpackedFloat.unpack] at h
  split at h
  · split at h <;> cases h
  · split at h
    · split at h
      · cases h
      · cases h
        exact (BitVec.isLt _).trans (by decide)
    · cases h
      exact BitVec.isLt _

/-- A double is a zero or it has a mantissa and an exponent, if it has an exponent at all. -/
theorem unpack_cases {x : Float.Model} (h : ExponentLE k x.unpack) :
    (∃ s, x.unpack = .zero s) ∨
    ∃ s m e hm, x.unpack = .finite s m e hm ∧ m < 2 ^ 53 ∧ e ≤ k := by
  cases hunpack : x.unpack with
  | infinity =>
      rw [hunpack] at h
      exact h.elim
  | notANumber =>
      rw [hunpack] at h
      exact h.elim
  | zero s => exact .inl ⟨s, rfl⟩
  | finite s m e hm =>
      rw [hunpack] at h
      exact .inr ⟨s, m, e, hm, rfl, mantissa_lt_of_unpack hunpack, h⟩

/-! ### Products and quotients -/

section Doubles

variable {x y : Float}

/-- **A product** of doubles. -/
theorem exponentLE_mul (hx : ExponentLE k x.toModel.unpack) (hy : ExponentLE l y.toModel.unpack)
    (hlow : -1127 ≤ k + l) (hhigh : k + l ≤ 864) :
    ExponentLE (k + l + 107) (x * y).toModel.unpack := by
  refine exponentLE_unpack_pack ?_ (by omega) (by omega)
  rcases unpack_cases hx with ⟨s, hu⟩ | ⟨s, m, e, hm, hu, hbits, he⟩ <;>
    rcases unpack_cases hy with ⟨s', hv⟩ | ⟨s', m', e', hm', hv, hbits', he'⟩ <;> rw [hu, hv]
  · trivial
  · trivial
  · trivial
  · have hproduct : m * m' < 2 ^ 106 := by
      rw [Nat.pow_add 2 53 53]
      exact Nat.mul_lt_mul'' hbits hbits'
    exact exponentLE_roundWithAccuracy _ _ hproduct (by omega) (by omega) (by omega)

/-- A double that is at least one has an exponent that is not too small. -/
theorem exponent_of_one_le (hy : y.isFinite = true) (h : 1.0 ≤ y) :
    ∃ m e hm, y.toModel.unpack = .finite .positive m e hm ∧ -52 ≤ e := by
  have hone : (1.0 : Float).toModel.unpack = .finite .positive (2 ^ 52) (-52) (by decide) := rfl
  have hle : UnpackedFloat.le (1.0 : Float).toModel.unpack y.toModel.unpack = true :=
    of_decide_eq_true h
  rw [hone] at hle
  change y.toModel.unpack.isFinite = true at hy
  generalize y.toModel.unpack = u at hle hy
  cases u with
  | infinity => cases hy
  | notANumber => cases hy
  | zero => cases hle
  | finite s m e hm =>
      cases s with
      | negative => cases hle
      | positive =>
          refine ⟨m, e, hm, rfl, ?_⟩
          cases hcompare : compare (-52) e with
          | lt => exact (Int.compare_eq_lt.mp hcompare).le
          | eq => exact (Int.compare_eq_eq.mp hcompare).le
          | gt =>
              simp only [UnpackedFloat.le, UnpackedFloat.compare, hcompare] at hle
              cases hle

/-- The quotient of two mantissas has at most so many bits. -/
theorem divCore_le {m m' : Nat} (e e' : Int) (hm : m < 2 ^ 53) (hm' : m' < 2 ^ 53)
    (hpos' : 0 < m') :
    (divCore Format.binary64 m e m' e').1 < 2 ^ 159 ∧
      (divCore Format.binary64 m e m' e').2.1 ≤ e - e' := by
  have hlog' : m'.log2 < 53 := (Nat.log2_lt hpos'.ne').mpr hm'
  have htarget : totalExponent m e - totalExponent m' e' - 53 ≤
      Format.binary64.targetExponent (totalExponent m e - totalExponent m' e') := le_max_left _ _
  unfold totalExponent at htarget
  refine ⟨(Nat.div_le_self _ _).trans_lt ?_, min_le_left _ _⟩
  rw [Nat.shiftLeft_eq, Nat.pow_add 2 53 106]
  refine Nat.mul_lt_mul_of_lt_of_le hm (Nat.pow_le_pow_right (by decide) ?_) (Nat.two_pow_pos _)
  unfold totalExponent
  omega

/-- **A quotient** by a double that is at least one. -/
theorem exponentLE_div (hx : ExponentLE k x.toModel.unpack) (hfinite : y.isFinite = true)
    (hy : 1.0 ≤ y) (hlow : -1232 ≤ k) (hhigh : k ≤ 706) :
    ExponentLE (k + 265) (x / y).toModel.unpack := by
  refine exponentLE_unpack_pack ?_ (by omega) (by omega)
  obtain ⟨m', e', hm', hv, he'⟩ := exponent_of_one_le hfinite hy
  have hbits' := mantissa_lt_of_unpack hv
  rcases unpack_cases hx with ⟨s, hu⟩ | ⟨s, m, e, hm, hu, hbits, he⟩ <;> rw [hu, hv]
  · trivial
  · obtain ⟨hquotient, hexponent⟩ := divCore_le e e' hbits hbits' hm'
    exact exponentLE_roundWithAccuracy _ _ hquotient (by omega) (by omega) (by omega)

end Doubles

/-! ### Whole numbers -/

theorem exponentLE_normalize {n : Nat} (hn : n < 2 ^ 64) (s : Sign) :
    ExponentLE 127 (UnpackedFloat.normalize Format.binary64 n 0 s) := by
  unfold UnpackedFloat.normalize
  split
  next hnegative =>
    have hlt := Int.compare_eq_lt.mp hnegative
    omega
  next => trivial
  next =>
    have htarget : (n.log2 + 1 : Int) - 53 ≤
        Format.binary64.targetExponent (totalExponent n 0) := by
      refine le_trans (le_of_eq ?_) (le_max_left _ _)
      rw [totalExponent, Int.add_zero]
      rfl
    have hshifted :
        n <<< (0 - Format.binary64.targetExponent (totalExponent n 0)).toNat < 2 ^ 116 := by
      rw [Nat.shiftLeft_eq, Nat.pow_add 2 64 52]
      refine Nat.mul_lt_mul_of_lt_of_le hn (Nat.pow_le_pow_right (by decide) ?_) (Nat.two_pow_pos _)
      omega
    simp only [UnpackedFloat.round, decreaseExponent, Int.toNat_natCast]
    exact exponentLE_roundWithAccuracy _ _ hshifted (by omega) (by omega) (by omega)

theorem exponentLE_toFloat (n : UInt64) : ExponentLE 127 n.toFloat.toModel.unpack :=
  exponentLE_unpack_pack (exponentLE_normalize n.toNat_lt _) (by omega) (by omega)

/-- **A natural number** that is not large. -/
theorem exponentLE_nearest {n : Nat} (hn : n < 2 ^ 53) :
    ExponentLE 182 (Binary.nearest n).toModel.unpack := by
  have hone : ExponentLE (-52) (Float.ofBits 0x3FF0000000000000).toModel.unpack := by
    rw [unpack_one]
    exact le_refl _
  rw [nearest_natCast hn]
  exact exponentLE_mul (exponentLE_toFloat _) hone (by omega) (by omega)

end Tromp
