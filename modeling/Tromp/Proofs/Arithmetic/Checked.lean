import Mathlib.Order.Nat
import Tromp.Arithmetic.Checked

/-!
# When nothing overflows

Arithmetic with a check has one danger: a whole number that is too large for the double it meets.
Three facts about a checked number rule it out.

1.  `Checked.IsReal`: it is a double.  A sum, a difference or a product with a double is one again.
2.  `Checked.Fits`: it is a double or can become one.
3.  `Checked.Within`: it is a double, or a whole number up to a bound.  Sums, differences and
    products of whole numbers are whole, so their bounds have to be kept.

A quotient of two numbers that fit is a double, whatever they are.

Where nothing overflows, the check has changed nothing: a checked number *tracks* the number that is
computed without a check (`Checked.Tracks`), through all four operations.
-/

namespace Tromp

/-- How large a number is as a whole number; a double counts for nothing. -/
def Number.magnitude : Number → Nat
  | whole n => n.natAbs
  | real _ => 0

namespace Number

variable {x y : Number}

theorem fitsDouble_of_magnitude_lt (h : x.magnitude < overflowBound) : x.fitsDouble = true := by
  cases x with
  | whole n => exact decide_eq_true h
  | real x => rfl

/-- Numbers that are doubles, or can become doubles, do not overflow. -/
theorem combine?_eq_ok (op : Number → Number → Number) (hx : x.fitsDouble = true)
    (hy : y.fitsDouble = true) : combine? op x y = .ok (op x y) := by
  have hguard : (if x.fitsDouble && y.fitsDouble then Except.ok (op x y)
      else .error Overflow.operand) = .ok (op x y) := by
    rw [hx, hy]
    rfl
  cases x <;> cases y
  · rfl
  all_goals exact hguard

/-- What an operation does to the size of whole numbers, it does to magnitudes. -/
theorem magnitude_combine_le {onInt : Int → Int → Int} {onFloat : Float → Float → Float}
    {bound : Nat → Nat → Nat} (h : ∀ a b, (onInt a b).natAbs ≤ bound a.natAbs b.natAbs)
    (x y : Number) : (combine onInt onFloat x y).magnitude ≤ bound x.magnitude y.magnitude := by
  cases x with
  | whole a =>
      cases y with
      | whole b => exact h a b
      | real y => exact Nat.zero_le _
  | real x => exact Nat.zero_le _

/-- A quotient of numbers that fit is a double. -/
theorem exists_divide?_eq_ok (hx : x.fitsDouble = true) (hy : y.fitsDouble = true) :
    ∃ z, divide? x y = .ok (.real z) := by
  cases x with
  | whole a =>
      cases y with
      | whole b =>
          have ha : a.natAbs < overflowBound := of_decide_eq_true hx
          have hbelow : ¬ (b ≠ 0 ∧ overflowBound * b.natAbs ≤ a.natAbs) := by
            rintro ⟨hb, hle⟩
            have := Nat.le_mul_of_pos_right overflowBound (Int.natAbs_pos.mpr hb)
            omega
          exact ⟨Binary.quotient a b, if_neg hbelow⟩
      | real y => exact ⟨_, combine?_eq_ok _ hx hy⟩
  | real x => cases y <;> exact ⟨_, combine?_eq_ok _ hx hy⟩

end Number

namespace Checked

variable {a b : Checked} {A B : Nat}

/-- A checked number is a double. -/
def IsReal (a : Checked) : Prop := ∃ x, a = .ok (.real x)

/-- A checked number is a double or can become one. -/
def Fits (a : Checked) : Prop := ∃ x : Number, a = .ok x ∧ x.fitsDouble = true

/-- A checked number is a double or a whole number up to a bound. -/
def Within (bound : Nat) (a : Checked) : Prop := ∃ x : Number, a = .ok x ∧ x.magnitude ≤ bound

theorem Within.fits (h : Within A a) (hA : A < overflowBound) : Fits a := by
  obtain ⟨x, hx, hle⟩ := h
  exact ⟨x, hx, Number.fitsDouble_of_magnitude_lt (Nat.lt_of_le_of_lt hle hA)⟩

theorem IsReal.fits (h : IsReal a) : Fits a := by
  obtain ⟨x, rfl⟩ := h
  exact ⟨.real x, rfl, rfl⟩

theorem Within.mono (h : Within A a) (hAB : A ≤ B) : Within B a := by
  obtain ⟨x, hx, hle⟩ := h
  exact ⟨x, hx, hle.trans hAB⟩

theorem within_intCast (n : Int) : Within n.natAbs ((n : Int) : Checked) := ⟨.whole n, rfl, le_rfl⟩

theorem within_ofNat (n : Nat) : Within n (Scalar.ofNat n) := within_intCast n

/-! ### Operations -/

/-- Numbers that fit do not overflow. -/
theorem lift_eq_ok (op : Number → Number → Number) {x y : Number} (hx : x.fitsDouble = true)
    (hy : y.fitsDouble = true) : lift (Number.combine? op) (.ok x) (.ok y) = .ok (op x y) :=
  Number.combine?_eq_ok op hx hy

theorem Within.lift {op : Number → Number → Number} {bound : Nat → Nat → Nat} (ha : Within A a)
    (hb : Within B b) (hA : A < overflowBound) (hB : B < overflowBound)
    (hop : ∀ x y, (op x y).magnitude ≤ bound x.magnitude y.magnitude)
    (hbound : ∀ m n, m ≤ A → n ≤ B → bound m n ≤ bound A B) :
    Within (bound A B) (Checked.lift (Number.combine? op) a b) := by
  obtain ⟨x, rfl, hx⟩ := ha
  obtain ⟨y, rfl, hy⟩ := hb
  have hfits := lift_eq_ok op (Number.fitsDouble_of_magnitude_lt (Nat.lt_of_le_of_lt hx hA))
    (Number.fitsDouble_of_magnitude_lt (Nat.lt_of_le_of_lt hy hB))
  exact ⟨op x y, hfits, (hop x y).trans (hbound _ _ hx hy)⟩

theorem Within.add (ha : Within A a) (hb : Within B b) (hA : A < overflowBound)
    (hB : B < overflowBound) : Within (A + B) (a + b) :=
  ha.lift hb hA hB (Number.magnitude_combine_le Int.natAbs_add_le) fun _ _ => Nat.add_le_add

theorem Within.sub (ha : Within A a) (hb : Within B b) (hA : A < overflowBound)
    (hB : B < overflowBound) : Within (A + B) (a - b) :=
  ha.lift hb hA hB (Number.magnitude_combine_le Int.natAbs_sub_le) fun _ _ => Nat.add_le_add

theorem Within.mul (ha : Within A a) (hb : Within B b) (hA : A < overflowBound)
    (hB : B < overflowBound) : Within (A * B) (a * b) :=
  ha.lift hb hA hB (Number.magnitude_combine_le fun a b => (Int.natAbs_mul a b).le)
    fun _ _ => Nat.mul_le_mul

theorem IsReal.add (ha : IsReal a) (hb : Fits b) : IsReal (a + b) := by
  obtain ⟨x, rfl⟩ := ha
  obtain ⟨y, rfl, hy⟩ := hb
  exact ⟨_, lift_eq_ok (· + ·) rfl hy⟩

theorem IsReal.sub (ha : IsReal a) (hb : Fits b) : IsReal (a - b) := by
  obtain ⟨x, rfl⟩ := ha
  obtain ⟨y, rfl, hy⟩ := hb
  exact ⟨_, lift_eq_ok (· - ·) rfl hy⟩

theorem Fits.add_real (ha : Fits a) (hb : IsReal b) : IsReal (a + b) := by
  obtain ⟨x, rfl, hx⟩ := ha
  obtain ⟨y, rfl⟩ := hb
  have hsum := lift_eq_ok (· + ·) hx (y := .real y) rfl
  cases x <;> exact ⟨_, hsum⟩

theorem Fits.mul (ha : Fits a) (hb : IsReal b) : IsReal (a * b) := by
  obtain ⟨x, rfl, hx⟩ := ha
  obtain ⟨y, rfl⟩ := hb
  have hproduct := lift_eq_ok (· * ·) hx (y := .real y) rfl
  cases x <;> exact ⟨_, hproduct⟩

theorem Fits.div (ha : Fits a) (hb : Fits b) : IsReal (a / b) := by
  obtain ⟨x, rfl, hx⟩ := ha
  obtain ⟨y, rfl, hy⟩ := hb
  exact Number.exists_divide?_eq_ok hx hy

theorem Fits.add_zero (h : Fits a) : Fits (a + Scalar.zero) := by
  obtain ⟨x, rfl, hx⟩ := h
  have hsum : (.ok x : Checked) + Scalar.zero = .ok (x + .whole 0) :=
    lift_eq_ok (· + ·) hx (by decide +kernel)
  refine ⟨x + .whole 0, hsum, ?_⟩
  cases x with
  | whole n =>
      have hwhole : Number.whole n + .whole 0 = .whole n := congrArg Number.whole (Int.add_zero n)
      rw [hwhole]
      exact hx
  | real x => rfl

/-! ### Arithmetic without a check -/

/-- A checked number is a number unless it has overflowed. -/
def Tracks (a : Checked) (x : Number) : Prop := ∀ y, a = .ok y → y = x

section Tracks

variable {x y z : Number}

theorem tracks_ok (x : Number) : Tracks (.ok x) x := fun _ h => (Except.ok.inj h).symm

theorem Tracks.eq_ok (h : Tracks a x) (ha : ∃ y, a = .ok y) : a = .ok x := by
  obtain ⟨y, rfl⟩ := ha
  rw [h y rfl]

/-- What is computed with a check is computed alike, where it is computed at all. -/
theorem Tracks.lift {op : Number → Number → Number} {op? : Number → Number → Except Overflow Number}
    (hop : ∀ x y z, op? x y = .ok z → z = op x y) (ha : Tracks a x) (hb : Tracks b y) :
    Tracks (Checked.lift op? a b) (op x y) := by
  intro z hz
  cases a with
  | error fault => cases hz
  | ok u =>
      cases b with
      | error fault => cases hz
      | ok v =>
          rw [← ha u rfl, ← hb v rfl]
          exact hop u v z hz

theorem eq_of_combine?_eq_ok (op : Number → Number → Number) (x y z : Number)
    (h : Number.combine? op x y = .ok z) : z = op x y := by
  unfold Number.combine? at h
  split at h
  · exact (Except.ok.inj h).symm
  · split at h
    · exact (Except.ok.inj h).symm
    · cases h

theorem eq_of_divide?_eq_ok (x y z : Number) (h : Number.divide? x y = .ok z) : z = x / y := by
  unfold Number.divide? at h
  split at h
  · split at h
    · cases h
    · exact (Except.ok.inj h).symm
  · exact eq_of_combine?_eq_ok _ _ _ _ h

theorem Tracks.add (ha : Tracks a x) (hb : Tracks b y) : Tracks (a + b) (x + y) :=
  ha.lift (eq_of_combine?_eq_ok _) hb

theorem Tracks.sub (ha : Tracks a x) (hb : Tracks b y) : Tracks (a - b) (x - y) :=
  ha.lift (eq_of_combine?_eq_ok _) hb

theorem Tracks.mul (ha : Tracks a x) (hb : Tracks b y) : Tracks (a * b) (x * y) :=
  ha.lift (eq_of_combine?_eq_ok _) hb

theorem Tracks.div (ha : Tracks a x) (hb : Tracks b y) : Tracks (a / b) (x / y) :=
  ha.lift eq_of_divide?_eq_ok hb

end Tracks

/-- Numbers that have not overflowed are compared as such. -/
theorem least_ok (x y : Number) :
    Scalar.least (.ok x : Checked) (.ok y) = .ok (Scalar.least x y) := by
  by_cases h : y < x
  · have hchecked : (.ok y : Checked) < .ok x := h
    rw [Scalar.least, Scalar.least, if_pos h, if_pos hchecked]
  · have hchecked : ¬ (.ok y : Checked) < .ok x := h
    rw [Scalar.least, Scalar.least, if_neg h, if_neg hchecked]

theorem greatest_ok (x y : Number) :
    Scalar.greatest (.ok x : Checked) (.ok y) = .ok (Scalar.greatest x y) := by
  by_cases h : x < y
  · have hchecked : (.ok x : Checked) < .ok y := h
    rw [Scalar.greatest, Scalar.greatest, if_pos h, if_pos hchecked]
  · have hchecked : ¬ (.ok x : Checked) < .ok y := h
    rw [Scalar.greatest, Scalar.greatest, if_neg h, if_neg hchecked]

/-- Among numbers none of which overflowed, there is no overflow. -/
theorem overflow?_eq_none_iff {numbers : List Checked} :
    overflow? numbers = none ↔ ∀ a ∈ numbers, ∃ x, a = .ok x := by
  rw [overflow?, List.findSome?_eq_none_iff]
  refine forall₂_congr fun a _ => ?_
  cases a with
  | ok x => exact ⟨fun _ => ⟨x, rfl⟩, fun _ => rfl⟩
  | error fault => exact ⟨nofun, nofun⟩

/-- Nothing overflows among numbers that all fit. -/
theorem overflow?_eq_none {numbers : List Checked} (h : ∀ a ∈ numbers, Fits a) :
    overflow? numbers = none := by
  refine overflow?_eq_none_iff.mpr fun a ha => ?_
  obtain ⟨x, hx, -⟩ := h a ha
  exact ⟨x, hx⟩

end Checked

end Tromp
