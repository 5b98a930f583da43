import Tromp.Proofs.Grid.Bridges

/-!
# Gaps are filled exactly, and once

The second repair finds every bridge: an empty cell is filled exactly when it lies on one, and then
with the character of a bridge that it lies on (`Grid.get?_fillGaps_of_blank`).  Of several bridges
over one cell one wins, and the others are interrupted there.

A cell that was filled shows a line character, and could be the end of a new gap.  The key fact is
that it never is: it lies inside the gap that it bridges, so that in the direction of its own
character something stands on either side of it (`Grid.beside_filled`).  So every bridge of the
filled grid has ends that were there before, and it would have been filled before.
-/

namespace Tromp

namespace Glyph

variable {glyph : Char} {d : Int × Int}

/-- The characters that draw lines. -/
theorem mem_of_direction? (h : direction? glyph = some d) :
    glyph = horizontal ∨ glyph ∈ [rising, vertical, falling] := by
  unfold direction? at h
  split at h
  next hhorizontal => exact Or.inl hhorizontal
  next => grind

end Glyph

namespace Grid

variable {g : Grid} {i j : Int} {x glyph : Char} {maxGap : Nat} {dr dc : Int} {back ahead : Nat}

/-- The count of empty cells stops at its limit or at a cell that is not empty. -/
theorem emptyAfter_eq {limit n : Nat} {row col : Int} (hlimit : n ≤ limit)
    (hempty : ∀ k : Nat, 1 ≤ k → k ≤ n →
      g.get? (row + dr * k) (col + dc * k) = some Glyph.blank)
    (hstop : n < limit →
      g.get? (row + dr * (n + 1 : Nat)) (col + dc * (n + 1 : Nat)) ≠ some Glyph.blank) :
    g.emptyAfter (dr, dc) limit row col = n := by
  induction limit generalizing n row col with
  | zero => exact (Nat.le_zero.mp hlimit).symm
  | succ limit ih =>
      have hshift : ∀ (a d : Int) (k : Nat), a + d * ((k + 1 : Nat) : Int) = a + d + d * k := by
        intro a d k
        push_cast
        ring
      cases n with
      | zero =>
          have hnext := hstop (Nat.succ_pos limit)
          rw [hshift, hshift] at hnext
          have hnext : g.get? (row + dr) (col + dc) ≠ some Glyph.blank := by simpa using hnext
          simp only [emptyAfter, if_neg hnext]
      | succ n =>
          have hnext := hempty 1 le_rfl (Nat.succ_pos n)
          have hnext : g.get? (row + dr) (col + dc) = some Glyph.blank := by simpa using hnext
          have hrest : g.emptyAfter (dr, dc) limit (row + dr) (col + dc) = n := by
            refine ih (Nat.le_of_succ_le_succ hlimit) ?_ ?_
            · intro k hk hkn
              rw [← hshift, ← hshift]
              exact hempty (k + 1) (Nat.succ_pos k) (Nat.succ_le_succ hkn)
            · intro hn
              rw [← hshift, ← hshift]
              exact hstop (Nat.succ_lt_succ hn)
          simp only [emptyAfter, if_pos hnext, hrest]

/-- **What lies on a bridge is bridged.** -/
theorem Bridged.isBridged (h : g.Bridged maxGap i j glyph dr dc back ahead) :
    g.isBridged maxGap i j glyph back = true := by
  obtain ⟨hdirection, hback, hahead, hspan, hstart, hfinish, hbetween⟩ := h
  -- Positions are counted from the position itself on a bridge, and from the beginning of the gap
  -- in the grid.
  have hshift : ∀ (a d n : Int) (m : Nat), (m : Int) = n + back →
      a - d * back + d * m = a + d * n := by
    intro a d n m hm
    rw [hm]
    ring
  have hend : ((back + ahead - 1 + 1 : Nat) : Int) = ahead + back := by omega
  have hcount : g.emptyAfter (dr, dc) maxGap (i - dr * back) (j - dc * back) =
      back + ahead - 1 := by
    refine emptyAfter_eq (by omega) ?_ ?_
    · intro k hk hkn
      have hk' : (k : Int) = (k - back : Int) + back := by omega
      rw [hshift _ _ _ _ hk', hshift _ _ _ _ hk']
      exact hbetween _ (by omega) (by omega)
    · intro _ hblank
      rw [hshift _ _ _ _ hend, hshift _ _ _ _ hend, hfinish] at hblank
      exact (Glyph.ne_of_direction? hdirection).1 (Option.some.inj hblank)
  have hgap : g.gapAfter maxGap glyph (i - dr * back) (j - dc * back) = back + ahead - 1 := by
    simp only [gapAfter, hdirection, hcount]
    rw [hshift _ _ _ _ hend, hshift _ _ _ _ hend, if_pos ⟨hstart, hfinish⟩]
  simp only [Grid.isBridged, hdirection, hgap, decide_eq_true_eq]
  omega

/-- A position on a bridge is bridged by some character, of this bridge or of another. -/
theorem Bridged.exists_bridge? (h : g.Bridged maxGap i j glyph dr dc back ahead) :
    ∃ winner, g.bridge? maxGap i j = some winner := by
  have hbridged := h.isBridged
  have hmem : back ∈ (List.range maxGap).map (· + 1) := by
    refine List.mem_map.mpr ⟨back - 1, List.mem_range.mpr ?_, ?_⟩
    · have := h.back_pos
      have := h.ahead_pos
      have := h.span_le
      omega
    · exact Nat.sub_add_cancel h.back_pos
  simp only [bridge?]
  split
  next => exact ⟨_, rfl⟩
  next hlevel =>
      rcases Glyph.mem_of_direction? h.direction with rfl | hglyph
      · exact absurd hbridged (List.find?_eq_none.mp hlevel back hmem)
      · rw [← Option.isSome_iff_exists, List.findSome?_isSome_iff]
        refine ⟨back, hmem, List.find?_isSome.mpr ⟨glyph, hglyph, hbridged⟩⟩

/-- **Filling is exact.**  An empty cell is filled exactly when it lies on a bridge, and with the
character of a bridge that it lies on. -/
theorem get?_fillGaps_of_blank (h : g.get? i j = some Glyph.blank) :
    ((g.fillGaps maxGap).get? i j ≠ some Glyph.blank ↔
      ∃ glyph dr dc back ahead, g.Bridged maxGap i j glyph dr dc back ahead) ∧
    ∀ x, (g.fillGaps maxGap).get? i j = some x → x ≠ Glyph.blank →
      ∃ dr dc back ahead, g.Bridged maxGap i j x dr dc back ahead := by
  have hcell : (g.fillGaps maxGap).get? i j =
      some ((g.bridge? maxGap i j).getD Glyph.blank) := by
    rw [get?_fillGaps, h]
    rfl
  have hfilled : ∀ x, (g.fillGaps maxGap).get? i j = some x → x ≠ Glyph.blank →
      ∃ dr dc back ahead, g.Bridged maxGap i j x dr dc back ahead := by
    intro x hx hne
    rw [hcell] at hx
    cases hbridge : g.bridge? maxGap i j with
    | none =>
        rw [hbridge] at hx
        exact absurd (Option.some.inj hx).symm hne
    | some winner =>
        rw [hbridge] at hx
        obtain rfl := Option.some.inj hx
        exact bridged_of_bridge? hbridge
  refine ⟨⟨?_, ?_⟩, hfilled⟩
  · intro hne
    rw [hcell, ne_eq, Option.some.injEq] at hne
    exact ⟨_, hfilled _ hcell hne⟩
  · rintro ⟨glyph, dr, dc, back, ahead, hb⟩
    obtain ⟨winner, hwinner⟩ := hb.exists_bridge?
    obtain ⟨_, _, _, _, hw⟩ := bridged_of_bridge? hwinner
    rw [hcell, hwinner]
    exact fun heq => (Glyph.ne_of_direction? hw.direction).1 (Option.some.inj heq)

/-- What is empty after the pass was empty before. -/
theorem blank_of_get?_fillGaps (h : (g.fillGaps maxGap).get? i j = some Glyph.blank) :
    g.get? i j = some Glyph.blank := by
  rw [get?_fillGaps] at h
  obtain ⟨x, hx, hblank⟩ := Option.map_eq_some_iff.mp h
  split at hblank
  next heq => rw [hx, heq]
  next hne => exact absurd hblank hne

/-! ### The neighbours of a filled cell -/

/-- The next position on a bridge is on the same bridge. -/
theorem Bridged.next (h : g.Bridged maxGap i j glyph dr dc back ahead) (hahead : 2 ≤ ahead) :
    g.Bridged maxGap (i + dr) (j + dc) glyph dr dc (back + 1) (ahead - 1) := by
  obtain ⟨hdirection, hback, -, hspan, hstart, hfinish, hbetween⟩ := h
  have hshift : ∀ a d n : Int, a + d + d * n = a + d * (n + 1) := by
    intro a d n
    ring
  have hreturn : ∀ a d : Int, a + d - d * ((back + 1 : Nat) : Int) = a - d * back := by
    intro a d
    push_cast
    ring
  have hend : ((ahead - 1 : Nat) : Int) + 1 = ahead := by omega
  refine ⟨hdirection, by omega, by omega, by omega, ?_, ?_, ?_⟩
  · rw [hreturn, hreturn]
    exact hstart
  · rw [hshift, hshift, hend]
    exact hfinish
  · intro n hlow hhigh
    rw [hshift, hshift]
    exact hbetween (n + 1) (by omega) (by omega)

/-- The position before is on the same bridge. -/
theorem Bridged.previous (h : g.Bridged maxGap i j glyph dr dc back ahead) (hback : 2 ≤ back) :
    g.Bridged maxGap (i - dr) (j - dc) glyph dr dc (back - 1) (ahead + 1) := by
  obtain ⟨hdirection, -, hahead, hspan, hstart, hfinish, hbetween⟩ := h
  have hshift : ∀ a d n : Int, a - d + d * n = a + d * (n - 1) := by
    intro a d n
    ring
  have hreturn : ∀ a d : Int, a - d - d * ((back - 1 : Nat) : Int) = a - d * back := by
    intro a d
    rw [Nat.cast_sub (by omega : 1 ≤ back)]
    push_cast
    ring
  have hend : ((ahead + 1 : Nat) : Int) - 1 = ahead := by omega
  refine ⟨hdirection, by omega, by omega, by omega, ?_, ?_, ?_⟩
  · rw [hreturn, hreturn]
    exact hstart
  · rw [hshift, hshift, hend]
    exact hfinish
  · intro n hlow hhigh
    rw [hshift, hshift]
    exact hbetween (n - 1) (by omega) (by omega)

/-- Positions on a bridge are filled. -/
theorem Bridged.filled (h : g.Bridged maxGap i j glyph dr dc back ahead) :
    (g.fillGaps maxGap).get? i j ≠ some Glyph.blank := by
  have hblank : g.get? i j = some Glyph.blank := by
    have hback := h.back_pos
    have hahead := h.ahead_pos
    simpa using h.between 0 (by omega) (by omega)
  exact (get?_fillGaps_of_blank hblank).1.mpr ⟨glyph, dr, dc, back, ahead, h⟩

/-- Both neighbours along a bridge show something after the pass: each of them is an end of the
bridge or on it. -/
theorem Bridged.beside (h : g.Bridged maxGap i j glyph dr dc back ahead) :
    (g.fillGaps maxGap).get? (i + dr) (j + dc) ≠ some Glyph.blank ∧
      (g.fillGaps maxGap).get? (i - dr) (j - dc) ≠ some Glyph.blank := by
  have hglyph := (Glyph.ne_of_direction? h.direction).1
  have hend : ∀ {row col : Int}, g.get? row col = some glyph →
      (g.fillGaps maxGap).get? row col ≠ some Glyph.blank := by
    intro row col hshown
    rw [get?_fillGaps_of_ne_blank hshown hglyph]
    exact fun heq => hglyph (Option.some.inj heq)
  constructor
  · rcases Nat.lt_or_ge 1 ahead with hahead | hahead
    · exact (h.next hahead).filled
    · obtain rfl : ahead = 1 := le_antisymm hahead h.ahead_pos
      exact hend (by simpa using h.finish)
  · rcases Nat.lt_or_ge 1 back with hback | hback
    · exact (h.previous hback).filled
    · obtain rfl : back = 1 := le_antisymm hback h.back_pos
      exact hend (by simpa using h.start)

/-- **Filled cells end no gap.**  Where a line character stands after the pass and a neighbour in
its direction is empty, it stood there before. -/
theorem get?_of_empty_beside (hshown : (g.fillGaps maxGap).get? i j = some glyph)
    (hdirection : Glyph.direction? glyph = some (dr, dc))
    (hempty : (g.fillGaps maxGap).get? (i + dr) (j + dc) = some Glyph.blank ∨
      (g.fillGaps maxGap).get? (i - dr) (j - dc) = some Glyph.blank) :
    g.get? i j = some glyph := by
  have hglyph := (Glyph.ne_of_direction? hdirection).1
  have hcell := hshown
  rw [get?_fillGaps] at hcell
  obtain ⟨x, hx, hfilled⟩ := Option.map_eq_some_iff.mp hcell
  by_cases hblank : x = Glyph.blank
  · subst hblank
    obtain ⟨dr', dc', back, ahead, hb⟩ := (get?_fillGaps_of_blank hx).2 glyph hshown hglyph
    obtain ⟨rfl, rfl⟩ : dr' = dr ∧ dc' = dc := by
      have hsame := hb.direction.symm.trans hdirection
      simpa using hsame
    rcases hempty with hnext | hprevious
    · exact absurd hnext hb.beside.1
    · exact absurd hprevious hb.beside.2
  · rw [if_neg hblank] at hfilled
    rw [hx, hfilled]

/-- **No new bridges.**  What lies on a bridge of the filled grid lay on it before. -/
theorem Bridged.of_fillGaps (h : (g.fillGaps maxGap).Bridged maxGap i j glyph dr dc back ahead) :
    g.Bridged maxGap i j glyph dr dc back ahead := by
  obtain ⟨hdirection, hback, hahead, hspan, hstart, hfinish, hbetween⟩ := h
  refine ⟨hdirection, hback, hahead, hspan, ?_, ?_, ?_⟩
  · -- The first cell of the gap is next to its start, and empty.
    refine get?_of_empty_beside hstart hdirection (Or.inl ?_)
    have hshift : ∀ a d : Int, a - d * back + d = a + d * (1 - back) := by
      intro a d
      ring
    rw [hshift, hshift]
    exact hbetween _ (by omega) (by omega)
  · refine get?_of_empty_beside hfinish hdirection (Or.inr ?_)
    have hshift : ∀ a d : Int, a + d * ahead - d = a + d * (ahead - 1) := by
      intro a d
      ring
    rw [hshift, hshift]
    exact hbetween _ (by omega) (by omega)
  · intro n hlow hhigh
    exact blank_of_get?_fillGaps (hbetween n hlow hhigh)

/-- A second pass finds nothing to fill. -/
theorem fillGaps_fillGaps (g : Grid) (maxGap : Nat) :
    (g.fillGaps maxGap).fillGaps maxGap = g.fillGaps maxGap := by
  refine ext_get? rfl rfl ?_
  intro i j
  rw [get?_fillGaps]
  cases hcell : (g.fillGaps maxGap).get? i j with
  | none => rfl
  | some x =>
      rw [Option.map_some]
      split
      next hblank =>
          cases hbridge : (g.fillGaps maxGap).bridge? maxGap i j with
          | none => rw [Option.getD_none]
          | some winner =>
              obtain ⟨_, _, _, _, hb⟩ := bridged_of_bridge? hbridge
              rw [hblank] at hcell
              exact absurd hcell hb.of_fillGaps.filled
      next => rfl

/-- **Gaps are filled exactly, and once.**  Whatever is on a grid, and whatever the limit is, one
below zero counting as zero: the pass keeps every cell that is not empty; it fills an empty one
exactly when the cell lies in a gap of at least one and at most so many empty cells between two
equal line characters, in the direction that they draw, and with the character of such a gap; and a
second pass changes nothing. -/
theorem fillGaps_exact (g : Grid) (limit : Int) :
    (g.fillGaps limit.toNat).rows = g.rows ∧ (g.fillGaps limit.toNat).cols = g.cols ∧
      (∀ i j x, g.get? i j = some x → x ≠ Glyph.blank →
        (g.fillGaps limit.toNat).get? i j = some x) ∧
      (∀ i j, g.get? i j = some Glyph.blank →
        ((g.fillGaps limit.toNat).get? i j ≠ some Glyph.blank ↔
          ∃ glyph dr dc back ahead, g.Bridged limit.toNat i j glyph dr dc back ahead) ∧
        ∀ x, (g.fillGaps limit.toNat).get? i j = some x → x ≠ Glyph.blank →
          ∃ dr dc back ahead, g.Bridged limit.toNat i j x dr dc back ahead) ∧
      (g.fillGaps limit.toNat).fillGaps limit.toNat = g.fillGaps limit.toNat :=
  ⟨rfl, rfl, fun _ _ _ => get?_fillGaps_of_ne_blank, fun _ _ => get?_fillGaps_of_blank,
    fillGaps_fillGaps g limit.toNat⟩

/-- Two gaps cross, and the one along the row wins. -/
example : ((ofLines 3 ["/│/".toList, "─ ─".toList, "/│/".toList]).fillGaps 1).lines =
    ["/│/".toList, "───".toList, "/│/".toList] := by decide +kernel

end Grid

end Tromp
