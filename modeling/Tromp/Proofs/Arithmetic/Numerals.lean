import Tromp.Arithmetic.Places

/-!
# The characters of numerals

Whatever number is printed, its text is made of few characters: the digits, a point, signs, the
letter of the exponent, and the letters of the names for what is not finite.  None of them means
anything in the places where numbers are written, which is all that the writer relies on.
-/

namespace Tromp

/-- The characters of the texts of numbers. -/
def numeralChars : List Char :=
  ['0', '1', '2', '3', '4', '5', '6', '7', '8', '9', '.', '+', '-', 'e', 'i', 'n', 'f', 'a']

namespace Places

theorem digits_subset (n : Nat) : digits n ⊆ numeralChars := by
  intro c hc
  have hdigit := Nat.isDigit_of_mem_toDigits (by decide) (by decide) hc
  have hall : ∀ k < 10, Char.ofNat (48 + k) ∈ numeralChars := by decide
  obtain ⟨hlow, hhigh⟩ := Bool.and_eq_true_iff.mp hdigit
  have hlow' : 48 ≤ c.toNat := by simpa [UInt32.le_iff_toNat_le] using hlow
  have hhigh' : c.toNat ≤ 57 := by simpa [UInt32.le_iff_toNat_le] using hhigh
  have hc' := hall (c.toNat - 48) (by omega)
  rwa [show 48 + (c.toNat - 48) = c.toNat by omega, Char.ofNat_toNat] at hc'

theorem replicate_subset (n : Nat) : List.replicate n '0' ⊆ numeralChars := by
  intro c hc
  obtain ⟨-, rfl⟩ := List.mem_replicate.mp hc
  decide

theorem dropZeros_subset (ds : List Char) : dropZeros ds ⊆ ds := by
  intro c hc
  exact List.mem_reverse.mp ((List.dropWhile_sublist _).subset (List.mem_reverse.mp hc))

theorem exponentText_subset (e : Int) : (exponentText e).toList ⊆ numeralChars := by
  have hsign : (if e < 0 then '-' else '+') ∈ numeralChars := by
    split <;> decide
  simp only [exponentText, String.toList_ofList]
  exact List.cons_subset.mpr ⟨hsign,
    List.append_subset.mpr ⟨replicate_subset _, digits_subset _⟩⟩

theorem special_subset (x : Float) : (special x).toList ⊆ numeralChars := by
  unfold special
  split
  · decide
  · split <;> decide

theorem sign_subset (b : Binary) : (sign b).toList ⊆ numeralChars := by
  unfold sign
  split <;> decide

end Places

open Places

/-- The characters of the shortest text of a double. -/
theorem Binary.shortestText_subset (b : Binary) : b.shortestText.toList ⊆ numeralChars := by
  unfold shortestText
  split
  · rw [String.toList_append]
    exact List.append_subset.mpr ⟨sign_subset b, by decide⟩
  · dsimp -zeta only
    extract_lets all ds e size whole rest lead text
    have hds : ds ⊆ numeralChars := List.Subset.trans (dropZeros_subset all) (digits_subset _)
    have hwhole : whole ⊆ numeralChars :=
      List.append_subset.mpr ⟨List.Subset.trans (List.take_subset size ds) hds, replicate_subset _⟩
    have hrest : rest ⊆ numeralChars := by
      simp only [rest]
      split
      · decide
      · exact List.Subset.trans (List.drop_subset size ds) hds
    have hlead : lead ⊆ numeralChars := by
      simp only [lead]
      clear_value ds
      cases ds with
      | nil => exact List.nil_subset _
      | cons c cs =>
          cases cs with
          | nil => exact hds
          | cons c' cs =>
              obtain ⟨hc, hcs⟩ := List.cons_subset.mp hds
              exact List.cons_subset.mpr ⟨hc, List.cons_subset.mpr ⟨by decide, hcs⟩⟩
    have htext : text.toList ⊆ numeralChars := by
      simp only [text]
      split
      · split
        · simp only [String.toList_append, String.toList_ofList]
          exact List.append_subset.mpr ⟨by decide,
            List.append_subset.mpr ⟨replicate_subset _, hds⟩⟩
        · simp only [String.toList_ofList]
          exact List.append_subset.mpr ⟨hwhole, List.cons_subset.mpr ⟨by decide, hrest⟩⟩
      · simp only [String.toList_append, String.toList_ofList]
        exact List.append_subset.mpr ⟨List.append_subset.mpr ⟨hlead, by decide⟩,
          exponentText_subset e⟩
    rw [String.toList_append]
    exact List.append_subset.mpr ⟨sign_subset b, htext⟩

theorem toList_repr_subset (n : Nat) : n.repr.toList ⊆ numeralChars := by
  rw [Nat.toList_repr]
  exact digits_subset n

/-- **The characters of the text of a number**, of either kind and finite or not. -/
theorem Number.text_subset (a : Number) : a.text.toList ⊆ numeralChars := by
  cases a with
  | whole n =>
      cases n with
      | ofNat m => exact toList_repr_subset m
      | negSucc m =>
          change ("-" ++ (m + 1).repr).toList ⊆ numeralChars
          rw [String.toList_append]
          exact List.append_subset.mpr ⟨by decide, toList_repr_subset (m + 1)⟩
  | real x =>
      change (doubleText x).toList ⊆ numeralChars
      unfold doubleText
      split
      · exact Binary.shortestText_subset _
      · exact special_subset x

end Tromp
