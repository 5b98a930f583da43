import Tromp.Arithmetic.Number
import Tromp.Proofs.Arithmetic.Finite

/-!
# Doubles without a sign

What is computed from doubles without a sign by products and quotients has no sign either, if it is
a number at all (`HasNoSign.mul`, `HasNoSign.div`).  The sign is one bit among the bits of a double,
and packing leaves it alone (`HasNoSign.exists_pack_eq`).

So such a number is rounded to a natural number, and to none above a bound that it does not exceed
(`ceil_bounds`).  What is no number counts as zero there.
-/

namespace Tromp

open Float.Model

open UnpackedFloat hiding normalize

/-- A float has no sign.  That of what is no number is not looked at. -/
def HasNoSign : UnpackedFloat → Prop
  | .infinity s => s = .positive
  | .notANumber => True
  | .zero s => s = .positive
  | .finite s _ _ _ => s = .positive

variable {u v : UnpackedFloat}

/-! ### Products and quotients -/

theorem hasNoSign_roundWithAccuracy (spec : Format) (m : Nat) (e : Int) (a : Accuracy) :
    HasNoSign (roundWithAccuracy spec .positive m e a) := by
  simp only [roundWithAccuracy]
  split <;> rfl

/-! Where both are numbers their signs are positive.  Only what is finite twice is rounded. -/

theorem HasNoSign.mul (hu : HasNoSign u) (hv : HasNoSign v) :
    HasNoSign (UnpackedFloat.mul Format.binary64 u v) := by
  cases u <;> cases v <;> first
    | trivial
    | (cases hu; cases hv; first | rfl | exact hasNoSign_roundWithAccuracy ..)

theorem HasNoSign.div (hu : HasNoSign u) (hv : HasNoSign v) :
    HasNoSign (UnpackedFloat.div Format.binary64 u v) := by
  cases u <;> cases v <;> first
    | trivial
    | (cases hu; cases hv; first | rfl | exact hasNoSign_roundWithAccuracy ..)

theorem hasNoSign_normalize (n : Nat) :
    HasNoSign (UnpackedFloat.normalize Format.binary64 n 0 .positive) := by
  unfold UnpackedFloat.normalize
  split
  next hnegative =>
    have hlt := Int.compare_eq_lt.mp hnegative
    omega
  next => rfl
  next => exact hasNoSign_roundWithAccuracy ..

/-! ### Packing -/

/-- What has no sign is packed with the sign bit clear. -/
theorem HasNoSign.exists_pack_eq (h : HasNoSign u) :
    ∃ b m, UnpackedFloat.pack Format.binary64 u = packComponents Format.binary64 .positive b m := by
  cases u with
  | infinity => cases h; exact ⟨_, _, rfl⟩
  | notANumber => exact ⟨_, _, rfl⟩
  | zero => cases h; exact ⟨_, _, rfl⟩
  | finite =>
      cases h
      simp only [UnpackedFloat.pack]
      split
      · exact ⟨_, _, rfl⟩
      · split <;> exact ⟨_, _, rfl⟩

theorem HasNoSign.unpack_pack (h : HasNoSign u) : HasNoSign (pack u).unpack := by
  obtain ⟨b, m, hpack⟩ := h.exists_pack_eq
  have hsign : Sign.ofBitVec (unpackSign (packComponents Format.binary64 .positive b m)) =
      .positive := by
    rw [unpackSign_packComponents, Sign.ofBitVec_toBitVec]
  change HasNoSign (UnpackedFloat.unpack Format.binary64 (UnpackedFloat.pack Format.binary64 u))
  rw [hpack]
  simp only [UnpackedFloat.unpack, hsign]
  split
  · split <;> trivial
  · split
    · split <;> rfl
    · rfl

/-- Without a sign the greatest of the 64 bits is clear. -/
theorem toNat_packComponents_lt (b : BitVec 11) (m : BitVec 52) :
    (packComponents Format.binary64 .positive b m).toNat < 2 ^ 63 := by
  have hb : (Sign.positive.toBitVec ++ b).toNat < 2 ^ 11 := by
    rw [BitVec.toNat_append]
    exact Nat.or_lt_two_pow (by decide) b.isLt
  change (Sign.positive.toBitVec ++ b ++ m).toNat < 2 ^ 63
  rw [BitVec.toNat_append, Nat.shiftLeft_eq]
  refine Nat.or_lt_two_pow ?_ (m.isLt.trans (by decide))
  rw [Nat.pow_add 2 11 52]
  exact Nat.mul_lt_mul_of_pos_right hb (by decide)

variable {x : Float}

/-- The bits of a double are those that are packed. -/
theorem toBitVec_toBits (x : Float) :
    x.toBits.toBitVec = UnpackedFloat.pack Format.binary64 x.toModel.unpack :=
  (pack_unpack_of_valid x.toModel.valid).symm

theorem toBits_lt (h : HasNoSign x.toModel.unpack) : x.toBits.toNat < 2 ^ 63 := by
  obtain ⟨b, m, hpack⟩ := h.exists_pack_eq
  change x.toBits.toBitVec.toNat < 2 ^ 63
  rw [toBitVec_toBits, hpack]
  exact toNat_packComponents_lt b m

/-! ### Whole numbers -/

theorem hasNoSign_nearest {n : Nat} (hn : n < 2 ^ 53) :
    HasNoSign (Binary.nearest n).toModel.unpack := by
  have hone : HasNoSign (Float.ofBits 0x3FF0000000000000).toModel.unpack := by
    rw [unpack_one]
    rfl
  rw [nearest_natCast hn]
  exact ((hasNoSign_normalize _).unpack_pack.mul hone).unpack_pack

/-! ### Rounding to integers -/

theorem negative_of_hasNoSign (h : HasNoSign x.toModel.unpack) {b : Binary}
    (hb : Binary.ofFloat? x = some b) : b.negative = false := by
  have hbits : ¬ twoTo 63 ≤ x.toBits.toNat := not_le.mpr (toBits_lt h)
  unfold Binary.ofFloat? at hb
  simp only at hb
  split at hb
  · cases hb
  · split at hb <;> cases hb <;> exact decide_eq_false hbits

namespace Binary

variable {b : Binary}

theorem denominator_pos (b : Binary) : (0 : Int) < b.denominator :=
  Int.natCast_pos.mpr (Nat.two_pow_pos _)

/-- The least integer that is not below a value is at most any other. -/
theorem ceil_le_of_compareInt {n : Int} (h : compareInt n b ≠ .lt) : b.ceil ≤ n := by
  have hle : b.numerator ≤ n * b.denominator := not_lt.mp (mt Int.compare_eq_lt.mpr h)
  have hquotient : -n ≤ (-b.numerator).fdiv b.denominator := by
    rw [Int.fdiv_eq_ediv_of_nonneg _ b.denominator_pos.le, Int.le_ediv_iff_mul_le b.denominator_pos]
    linarith
  unfold ceil
  omega

theorem ceil_nonneg (h : b.negative = false) : 0 ≤ b.ceil := by
  have hnumerator : 0 ≤ b.numerator := by
    unfold numerator
    rw [if_neg (by simp [h])]
    exact Int.natCast_nonneg _
  have hquotient : (-b.numerator).fdiv b.denominator ≤ 0 := by
    rw [Int.fdiv_eq_ediv_of_nonneg _ b.denominator_pos.le]
    exact Int.ediv_nonpos_of_nonpos_of_neg (by omega) b.denominator_pos
  unfold ceil
  omega

end Binary

/-- What has no exact value is an infinity or no number. -/
theorem unpack_of_ofFloat?_eq_none (h : Binary.ofFloat? x = none) :
    (∃ s, x.toModel.unpack = .infinity s) ∨ x.toModel.unpack = .notANumber := by
  have hfield : x.toBits.toNat / twoTo 52 % twoTo 11 = twoTo 11 - 1 := by
    by_contra hne
    unfold Binary.ofFloat? at h
    simp only at h
    rw [if_neg hne] at h
    split at h <;> cases h
  have hexponent : @unpackExponent Format.binary64 x.toModel.toBits.toBitVec = -1#11 := by
    refine BitVec.eq_of_toNat_eq ?_
    rw [unpackExponent_def, BitVec.extractLsb'_toNat, Nat.shiftRight_eq_div_pow]
    exact hfield
  simp only [Float.Model.unpack, UnpackedFloat.unpack, hexponent, if_true]
  split
  · exact .inl ⟨_, rfl⟩
  · exact .inr rfl

/-- **A number that has no sign and is at most a natural number** is rounded to one. -/
theorem ceil_bounds (h : HasNoSign x.toModel.unpack) {n : Nat}
    (hle : ¬ Number.whole n < .real x) :
    0 ≤ Scalar.ceil (Number.real x) ∧ Scalar.ceil (Number.real x) ≤ n := by
  have horder : Number.order?.withDouble n x ≠ some .lt := by
    intro hlt
    exact hle (beq_iff_eq.mpr hlt)
  change 0 ≤ Number.roundBy Binary.ceil (.real x) ∧ Number.roundBy Binary.ceil (.real x) ≤ n
  unfold Number.order?.withDouble at horder
  unfold Number.roundBy
  cases hvalue : Binary.ofFloat? x with
  | some b =>
      rw [hvalue] at horder
      have hcompare : Binary.compareInt n b ≠ .lt := mt (congrArg some) horder
      simp only [hvalue]
      exact ⟨Binary.ceil_nonneg (negative_of_hasNoSign h hvalue),
        Binary.ceil_le_of_compareInt hcompare⟩
  | none =>
      rw [hvalue] at horder
      simp only [hvalue]
      rcases unpack_of_ofFloat?_eq_none hvalue with ⟨s, hunpack⟩ | hunpack
      · rw [hunpack] at h
        cases h
        have hpositive : 0 < x := by
          refine decide_eq_true ?_
          change UnpackedFloat.lt (0 : Float).toModel.unpack x.toModel.unpack = true
          rw [hunpack]
          rfl
        have hnumber : ¬ x.isNaN = true :=
          Bool.not_eq_true _ ▸ (congrArg UnpackedFloat.isNaN hunpack : x.isNaN = false)
        exact absurd ((if_neg hnumber).trans (if_pos hpositive)) horder
      · have hnan : x.isNaN = true := congrArg UnpackedFloat.isNaN hunpack
        rw [if_pos hnan]
        exact ⟨le_refl 0, Int.natCast_nonneg n⟩

end Tromp
