/-!
# Slices

A slice of a list reaches from one position up to another.  A negative position counts from the far
end of the list, and a position beyond either end is taken to that end; a slice whose ends are in
the wrong order is empty.
-/

namespace Tromp

/-- The number of elements before a position in a list of some length. -/
def before (length : Nat) (position : Int) : Nat :=
  (if position < 0 then position + length else position).toNat

/-- The elements from one position up to another. -/
def slice {α : Type} (start stop : Int) (xs : List α) : List α :=
  (xs.take (before xs.length stop)).drop (before xs.length start)

/-- Between positions that count from the near end a slice is what is left after dropping and
taking. -/
theorem slice_ofNat {α : Type} (start stop : Nat) (xs : List α) :
    slice (start : Int) (stop : Int) xs = (xs.take stop).drop start := by
  simp [slice, before, Int.not_lt.2 (Int.natCast_nonneg _)]

end Tromp
