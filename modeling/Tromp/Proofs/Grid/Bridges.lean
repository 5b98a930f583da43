import Mathlib.Tactic.Ring
import Tromp.Grid.Repair
import Tromp.Proofs.Grid.Cells

/-!
# What the repairs do

Both repairs look at the grid before them, so each is described cell by cell.  The first changes
markers only, and into characters that are neither markers nor empty.  The second changes empty
cells only, and only those on a *bridge*: between two cells that show one line character, over empty
cells all the way.
-/

namespace Tromp

namespace Glyph

/-- Every junction is something, and none is a marker. -/
theorem junction_ne (north east south west : Bool) :
    junction north east south west ≠ blank ∧ junction north east south west ≠ marker := by
  revert north east south west
  decide

/-- A character that draws lines is something, and no marker. -/
theorem ne_of_direction? {a : Char} {d : Int × Int} (h : direction? a = some d) :
    a ≠ blank ∧ a ≠ marker := by
  constructor <;> rintro rfl <;> cases h

end Glyph

namespace Grid

variable {g : Grid} {i j : Int} {x glyph : Char} {maxGap : Nat}

/-- Markers are replaced by junctions, and nothing else is. -/
theorem get?_resolveCrossings : g.resolveCrossings.get? i j =
    (g.get? i j).map fun x => if x = Glyph.marker then g.junctionAt i j else x :=
  get?_mapCells fun i j x => if x = Glyph.marker then g.junctionAt i j else x

/-- Empty cells are filled where there is a bridge, and nothing else is. -/
theorem get?_fillGaps : (g.fillGaps maxGap).get? i j =
    (g.get? i j).map fun x => if x = Glyph.blank then (g.bridge? maxGap i j).getD x else x :=
  get?_mapCells fun i j x => if x = Glyph.blank then (g.bridge? maxGap i j).getD x else x

/-- What was resolved already stays. -/
theorem get?_fillGaps_of_ne_blank (h : g.get? i j = some x) (hx : x ≠ Glyph.blank) :
    (g.fillGaps maxGap).get? i j = some x := by
  rw [get?_fillGaps, h, Option.map_some, if_neg hx]

/-- A position on a bridge: `back` steps after one cell and `ahead` steps before another that show
one line character, in the direction that it draws, with at most `maxGap` cells between them, all
empty. -/
structure Bridged (g : Grid) (maxGap : Nat) (i j : Int) (glyph : Char) (dr dc : Int)
    (back ahead : Nat) : Prop where
  direction : Glyph.direction? glyph = some (dr, dc)
  back_pos : 1 ≤ back
  ahead_pos : 1 ≤ ahead
  span_le : back + ahead ≤ maxGap + 1
  start : g.get? (i - dr * back) (j - dc * back) = some glyph
  finish : g.get? (i + dr * ahead) (j + dc * ahead) = some glyph
  between : ∀ n : Int, -(back : Int) < n → n < ahead →
    g.get? (i + dr * n) (j + dc * n) = some Glyph.blank

theorem emptyAfter_le (g : Grid) (direction : Int × Int) (limit : Nat) (row col : Int) :
    g.emptyAfter direction limit row col ≤ limit := by
  induction limit generalizing row col with
  | zero => exact le_rfl
  | succ limit ih =>
      simp only [emptyAfter]
      split
      · exact Nat.succ_le_succ (ih _ _)
      · exact Nat.zero_le _

/-- The cells that are counted are empty. -/
theorem get?_of_le_emptyAfter {dr dc : Int} {limit k : Nat} {row col : Int} (hk : 1 ≤ k)
    (h : k ≤ g.emptyAfter (dr, dc) limit row col) :
    g.get? (row + dr * k) (col + dc * k) = some Glyph.blank := by
  induction limit generalizing row col k with
  | zero =>
      have hzero : k ≤ 0 := h
      omega
  | succ limit ih =>
      simp only [emptyAfter] at h
      by_cases hnext : g.get? (row + dr) (col + dc) = some Glyph.blank
      · rw [if_pos hnext] at h
        obtain ⟨m, rfl⟩ : ∃ m, k = m + 1 := ⟨k - 1, by omega⟩
        have hshift : ∀ a d : Int, a + d * ((m + 1 : Nat) : Int) = a + d + d * m := by
          intro a d
          push_cast
          ring
        rw [hshift, hshift]
        by_cases hm : m = 0
        · simpa [hm] using hnext
        · exact ih (by omega) (by omega)
      · rw [if_neg hnext] at h
        omega

/-- **What is bridged lies on a bridge.** -/
theorem bridged_of_isBridged {k : Nat} (hk : 1 ≤ k) (h : g.isBridged maxGap i j glyph k = true) :
    ∃ dr dc ahead, g.Bridged maxGap i j glyph dr dc k ahead := by
  unfold isBridged at h
  cases hdirection : Glyph.direction? glyph with
  | none => simp [hdirection] at h
  | some d =>
      obtain ⟨dr, dc⟩ := d
      simp only [hdirection, decide_eq_true_eq, gapAfter] at h
      generalize hn : g.emptyAfter (dr, dc) maxGap (i - dr * k) (j - dc * k) = n at h
      have hlimit : n ≤ maxGap := hn ▸ emptyAfter_le ..
      split at h
      next hends =>
          obtain ⟨hstart, hfinish⟩ := hends
          -- Positions are counted from the beginning of the gap in the grid, and from the position
          -- itself on a bridge.
          have hshift : ∀ (a d n : Int) (m : Nat), (m : Int) = n + k →
              a - d * k + d * m = a + d * n := by
            intro a d n m hm
            rw [hm]
            ring
          have hahead : ((n + 1 : Nat) : Int) = ((n + 1 - k : Nat) : Int) + k := by omega
          rw [hshift _ _ _ _ hahead, hshift _ _ _ _ hahead] at hfinish
          refine ⟨dr, dc, n + 1 - k, hdirection, hk, by omega, by omega, hstart, hfinish, ?_⟩
          intro m hlow hhigh
          have hm : ((m + k).toNat : Int) = m + k := by omega
          have hcount : (m + k).toNat ≤ g.emptyAfter (dr, dc) maxGap (i - dr * k) (j - dc * k) := by
            rw [hn]
            omega
          have hempty := get?_of_le_emptyAfter (by omega) hcount
          rwa [hshift _ _ _ _ hm, hshift _ _ _ _ hm] at hempty
      next => omega

/-- A bridge over a position shows the character of its ends. -/
theorem bridged_of_bridge? (h : g.bridge? maxGap i j = some glyph) :
    ∃ dr dc back ahead, g.Bridged maxGap i j glyph dr dc back ahead := by
  obtain ⟨k, hk, hbridged⟩ : ∃ k, 1 ≤ k ∧ g.isBridged maxGap i j glyph k = true := by
    simp only [bridge?] at h
    split at h
    next k hlevel =>
        obtain rfl := Option.some.inj h
        have hmem := List.mem_of_find?_eq_some hlevel
        refine ⟨k, ?_, List.find?_some hlevel⟩
        obtain ⟨m, -, rfl⟩ := List.mem_map.mp hmem
        omega
    next =>
        obtain ⟨k, hmem, hfind⟩ := List.exists_of_findSome?_eq_some h
        have hbridged := List.find?_some hfind
        refine ⟨k, ?_, hbridged⟩
        obtain ⟨m, -, rfl⟩ := List.mem_map.mp hmem
        omega
  obtain ⟨dr, dc, ahead, hbridge⟩ := bridged_of_isBridged hk hbridged
  exact ⟨dr, dc, k, ahead, hbridge⟩

end Grid

end Tromp
