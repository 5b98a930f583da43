import Mathlib.Data.Prod.Lex
import Tromp.Proofs.Grid.Filling

/-!
# Gaps that cross

Gaps in several directions may share a cell, and a cell shows one character.  The pass that fills
them writes them in reading order of the cells that they begin at, each over what was written
before.  So **the gap that begins last wins the cell** (`Grid.exists_isLastGap`), and the line of
another gap goes on there only if the winner has all the arms of its character.

1.  Slanted characters reach all sides and continue every line; a line along a row or a column is
    continued by its own character and by slanted ones (`Glyph.continues_iff`).
2.  A gap along a row begins in the row of its cells, after all those that come from above.  It wins
    every cell and is never interrupted.
3.  A gap along a column is interrupted exactly where a gap along a row crosses it.
-/

namespace Tromp

namespace Glyph

variable {shown glyph : Char} {d : Int × Int} {dr dc : Int}

/-- The line of a character goes on through a cell that shows another if that one has all its
arms. -/
def Continues (shown glyph : Char) : Prop := ∀ s ∈ arms glyph, s ∈ arms shown

instance : Decidable (Continues shown glyph) :=
  inferInstanceAs (Decidable (∀ s ∈ arms glyph, s ∈ arms shown))

/-- The characters that draw lines, with their directions. -/
theorem direction?_cases (h : direction? glyph = some (dr, dc)) :
    (glyph = horizontal ∧ dr = 0 ∧ dc = 1) ∨ (glyph = rising ∧ dr = 1 ∧ dc = -1) ∨
      (glyph = vertical ∧ dr = 1 ∧ dc = 0) ∨ (glyph = falling ∧ dr = 1 ∧ dc = 1) := by
  unfold direction? at h
  repeat' split at h
  all_goals grind

/-- Slanted characters continue every line, the others only their own. -/
theorem continues_iff {d' : Int × Int} (hshown : direction? shown = some d)
    (hglyph : direction? glyph = some d') :
    Continues shown glyph ↔ shown = glyph ∨ shown = rising ∨ shown = falling := by
  rcases direction?_cases hshown with ⟨rfl, -⟩ | ⟨rfl, -⟩ | ⟨rfl, -⟩ | ⟨rfl, -⟩
  all_goals
    rcases direction?_cases hglyph with ⟨rfl, -⟩ | ⟨rfl, -⟩ | ⟨rfl, -⟩ | ⟨rfl, -⟩ <;> decide

end Glyph

/-- A run of cells after one cell, in the direction that a line character draws. -/
structure Gap where
  glyph : Char
  /-- The cell before the run, row first. -/
  start : Int × Int
  step : Int × Int
  isStep : Glyph.direction? glyph = some step
  length : Nat

namespace Gap

/-- The row of the cell some steps after the start. -/
def row (p : Gap) (k : Nat) : Int := p.start.1 + p.step.1 * k

/-- The column of the cell some steps after the start. -/
def col (p : Gap) (k : Nat) : Int := p.start.2 + p.step.2 * k

/-- Whether a cell is one of the run. -/
def Covers (p : Gap) (i j : Int) : Prop := ∃ k, 1 ≤ k ∧ k ≤ p.length ∧ p.row k = i ∧ p.col k = j

/-- The start of a run in reading order: by its row, and within a row by its column. -/
def origin (p : Gap) : Lex (Int × Int) := toLex p.start

end Gap

namespace Grid

variable {g : Grid} {i j : Int} {glyph : Char} {maxGap : Nat} {dr dc : Int} {back ahead : Nat}
  {p q : Gap}

/-- The gaps of a grid: at most so many empty cells, and at least one, between two cells that show
the character of the gap. -/
structure HasGap (g : Grid) (maxGap : Nat) (p : Gap) : Prop where
  length_pos : 1 ≤ p.length
  length_le : p.length ≤ maxGap
  before : g.get? p.start.1 p.start.2 = some p.glyph
  after : g.get? (p.row (p.length + 1)) (p.col (p.length + 1)) = some p.glyph
  empty : ∀ k, 1 ≤ k → k ≤ p.length → g.get? (p.row k) (p.col k) = some Glyph.blank

/-- The gap over a cell that begins last in reading order. -/
structure IsLastGap (g : Grid) (maxGap : Nat) (i j : Int) (p : Gap) : Prop where
  hasGap : g.HasGap maxGap p
  covers : p.Covers i j
  last : ∀ q, g.HasGap maxGap q → q.Covers i j → q.origin ≤ p.origin

/-- The cells of a gap lie on the bridge over it. -/
theorem HasGap.bridged (h : g.HasGap maxGap p) {k : Nat} (hpos : 1 ≤ k) (hk : k ≤ p.length) :
    g.Bridged maxGap (p.row k) (p.col k) p.glyph p.step.1 p.step.2 k (p.length + 1 - k) := by
  have hback : ∀ a d : Int, a + d * k - d * k = a := fun a d => Int.add_sub_cancel a _
  have hmove : ∀ (a d n : Int) (m : Nat), (m : Int) = k + n → a + d * k + d * n = a + d * m := by
    intro a d n m hm
    rw [hm]
    ring
  have hlength := h.length_le
  refine ⟨p.isStep, hpos, by omega, by omega, ?start, ?finish, ?between⟩
  case start =>
    simp only [Gap.row, Gap.col, hback]
    exact h.before
  case finish =>
    have hm : ((p.length + 1 : Nat) : Int) = k + ((p.length + 1 - k : Nat) : Int) := by omega
    simp only [Gap.row, Gap.col, hmove _ _ _ _ hm]
    exact h.after
  case between =>
    intro n hlow hhigh
    have hm : ((k + n).toNat : Int) = k + n := by omega
    simp only [Gap.row, Gap.col, hmove _ _ _ _ hm]
    exact h.empty (k + n).toNat (by omega) (by omega)

/-- A bridge over a cell leads over a gap. -/
theorem Bridged.exists_gap (h : g.Bridged maxGap i j glyph dr dc back ahead) :
    ∃ p : Gap, g.HasGap maxGap p ∧ p.Covers i j ∧ p.glyph = glyph ∧
      p.start = (i - dr * back, j - dc * back) := by
  have hback := h.back_pos
  have hahead := h.ahead_pos
  have hspan := h.span_le
  obtain ⟨length, hlength⟩ : ∃ n : Nat, n + 1 = back + ahead := ⟨back + ahead - 1, by omega⟩
  have hmove : ∀ (a d n : Int) (m : Nat), (m : Int) = back + n →
      a - d * back + d * m = a + d * n := by
    intro a d n m hm
    rw [hm]
    ring
  refine ⟨⟨glyph, (i - dr * back, j - dc * back), (dr, dc), h.direction, length⟩,
    ⟨(by omega : 1 ≤ length), (by omega : length ≤ maxGap), h.start, ?after, ?empty⟩,
    ⟨back, hback, (by omega : back ≤ length), Int.sub_add_cancel _ _, Int.sub_add_cancel _ _⟩,
    rfl, rfl⟩
  case after =>
    have hm : ((length + 1 : Nat) : Int) = back + ahead := by omega
    simp only [Gap.row, Gap.col, hmove _ _ _ _ hm]
    exact h.finish
  case empty =>
    intro k hpos (hk : k ≤ length)
    have hm : (k : Int) = back + (k - back) := by omega
    simp only [Gap.row, Gap.col, hmove _ _ _ _ hm]
    exact h.between _ (by omega) (by omega)

/-! ### The last gap wins -/

/-- The distances up to a limit. -/
theorem mem_distances_iff {n m : Nat} : m ∈ (List.range n).map (· + 1) ↔ 1 ≤ m ∧ m ≤ n := by
  simp only [List.mem_map, List.mem_range]
  constructor
  · rintro ⟨l, hl, rfl⟩
    omega
  · rintro ⟨hpos, hm⟩
    exact ⟨m - 1, by omega, by omega⟩

/-- Of the distances up to a limit, those before one of them are the smaller ones. -/
theorem mem_before_of_lt {n k m : Nat} {before after : List Nat}
    (h : (List.range n).map (· + 1) = before ++ k :: after) (hm : 1 ≤ m) (hlt : m < k) :
    m ∈ before := by
  have hsorted : (before ++ k :: after).Pairwise (· < ·) := by
    rw [← h]
    exact List.pairwise_lt_range.map _ fun _ _ => Nat.succ_lt_succ
  have hk : k ≤ n := (mem_distances_iff.mp (h ▸ List.mem_append_right _ List.mem_cons_self)).2
  have hmem : m ∈ before ++ k :: after := h ▸ mem_distances_iff.mpr ⟨hm, by omega⟩
  rcases List.mem_append.mp hmem with hbefore | hrest
  · exact hbefore
  · obtain ⟨-, hrests, -⟩ := List.pairwise_append.mp hsorted
    rcases List.mem_cons.mp hrest with rfl | hafter
    · exact absurd hlt (Nat.lt_irrefl m)
    · exact absurd hlt (Nat.lt_asymm ((List.pairwise_cons.mp hrests).1 m hafter))

theorem Bridged.back_le (h : g.Bridged maxGap i j glyph dr dc back ahead) : back ≤ maxGap := by
  have hahead := h.ahead_pos
  have hspan := h.span_le
  omega

/-- Of the bridges along the row of a cell the nearest one is found. -/
theorem nearest_of_find? {k : Nat}
    (h : ((List.range maxGap).map (· + 1)).find? (g.isBridged maxGap i j glyph) = some k) :
    1 ≤ k ∧ g.isBridged maxGap i j glyph k = true ∧
      ∀ {dr dc back ahead}, g.Bridged maxGap i j glyph dr dc back ahead → k ≤ back := by
  obtain ⟨hbridged, before, after, heq, hbefore⟩ := List.find?_eq_some_iff_append.mp h
  refine ⟨(mem_distances_iff.mp (heq ▸ List.mem_append_right _ List.mem_cons_self)).1, hbridged, ?_⟩
  intro dr dc back ahead hb
  by_contra hlt
  have hnone := hbefore back (mem_before_of_lt heq hb.back_pos (by omega))
  simp [hb.isBridged] at hnone

/-- Of the bridges that begin above a cell one of the nearest is found. -/
theorem nearest_of_findSome? {glyphs : List Char}
    (h : ((List.range maxGap).map (· + 1)).findSome? (fun k =>
      glyphs.find? fun a => g.isBridged maxGap i j a k) = some glyph) :
    ∃ k, 1 ≤ k ∧ glyphs.find? (fun a => g.isBridged maxGap i j a k) = some glyph ∧
      ∀ {other dr dc back ahead}, other ∈ glyphs →
        g.Bridged maxGap i j other dr dc back ahead → k ≤ back := by
  obtain ⟨before, k, after, heq, hfind, hbefore⟩ := List.findSome?_eq_some_iff.mp h
  refine ⟨k, (mem_distances_iff.mp (heq ▸ List.mem_append_right _ List.mem_cons_self)).1, hfind, ?_⟩
  intro other dr dc back ahead hother hb
  by_contra hlt
  have hnone := hbefore back (mem_before_of_lt heq hb.back_pos (by omega))
  exact List.find?_eq_none.mp hnone other hother hb.isBridged

/-- Of the bridges that begin in one row above, the one furthest to the right is tried first. -/
theorem le_of_find?_above {P : Char → Bool} {other : Char} {dc' : Int}
    (h : [Glyph.rising, Glyph.vertical, Glyph.falling].find? P = some glyph)
    (hglyph : Glyph.direction? glyph = some (1, dc)) (hP : P other = true)
    (hother : Glyph.direction? other = some (1, dc')) : dc ≤ dc' := by
  have hfirst : other = Glyph.rising → glyph = Glyph.rising := by
    rintro rfl
    rw [List.find?_cons_of_pos hP] at h
    exact (Option.some.inj h).symm
  have hsecond : other = Glyph.vertical → glyph ≠ Glyph.falling := by
    rintro rfl rfl
    cases hrising : P Glyph.rising with
    | true =>
        rw [List.find?_cons_of_pos hrising] at h
        exact absurd (Option.some.inj h) (by decide)
    | false =>
        rw [List.find?_cons_of_neg (by simp [hrising]), List.find?_cons_of_pos hP] at h
        exact absurd (Option.some.inj h) (by decide)
  have hcases := Glyph.direction?_cases hglyph
  have hcases' := Glyph.direction?_cases hother
  grind

/-- **The bridge that is chosen begins last** of those over a cell.  One along a row begins in the
row of the cell, all others above it: the nearer they begin, the later. -/
theorem bridge?_last (h : g.bridge? maxGap i j = some glyph) :
    ∃ dr dc back ahead, g.Bridged maxGap i j glyph dr dc back ahead ∧
      ∀ {other dr' dc' back' ahead'}, g.Bridged maxGap i j other dr' dc' back' ahead' →
        toLex (i - dr' * back', j - dc' * back') ≤ toLex (i - dr * back, j - dc * back) := by
  simp only [bridge?] at h
  split at h
  next k hlevel =>
      obtain rfl := Option.some.inj h
      obtain ⟨hk, hbridged, hnearest⟩ := nearest_of_find? hlevel
      obtain ⟨dr, dc, ahead, hb⟩ := bridged_of_isBridged hk hbridged
      obtain ⟨rfl, rfl⟩ : dr = 0 ∧ dc = 1 := by
        cases hb.direction
        exact ⟨rfl, rfl⟩
      refine ⟨0, 1, k, ahead, hb, ?_⟩
      intro other dr' dc' back' ahead' hb'
      have hback := hb'.back_pos
      rw [Prod.Lex.toLex_le_toLex]
      rcases Glyph.direction?_cases hb'.direction with
        ⟨rfl, rfl, rfl⟩ | ⟨-, rfl, -⟩ | ⟨-, rfl, -⟩ | ⟨-, rfl, -⟩
      · have hle := hnearest hb'
        right
        omega
      all_goals
        left
        omega
  next hlevel =>
      obtain ⟨k, hk, hfind, hnearest⟩ := nearest_of_findSome? h
      have hbridged := List.find?_some hfind
      obtain ⟨dr, dc, ahead, hb⟩ := bridged_of_isBridged hk hbridged
      have habove : ∀ {other dr' dc' back' ahead'},
          g.Bridged maxGap i j other dr' dc' back' ahead' → dr' = 1 ∧
            other ∈ [Glyph.rising, Glyph.vertical, Glyph.falling] := by
        intro other dr' dc' back' ahead' hb'
        have hne : other ≠ Glyph.horizontal := by
          rintro rfl
          have hmem := mem_distances_iff.mpr ⟨hb'.back_pos, hb'.back_le⟩
          exact List.find?_eq_none.mp hlevel _ hmem hb'.isBridged
        refine ⟨?_, (Glyph.mem_of_direction? hb'.direction).resolve_left hne⟩
        have hcases := Glyph.direction?_cases hb'.direction
        grind
      obtain ⟨rfl, -⟩ := habove hb
      refine ⟨1, dc, k, ahead, hb, ?_⟩
      intro other dr' dc' back' ahead' hb'
      obtain ⟨rfl, hother⟩ := habove hb'
      have hle := hnearest hother hb'
      rw [Prod.Lex.toLex_le_toLex]
      rcases Nat.lt_or_ge k back' with hlt | hge
      · left
        omega
      · -- Both begin in one row.
        obtain rfl : back' = k := le_antisymm hge hle
        right
        have hcol := le_of_find?_above hfind hb.direction hb'.isBridged hb'.direction
        exact ⟨rfl, Int.sub_le_sub_left
          (Int.mul_le_mul_of_nonneg_right hcol (Int.natCast_nonneg _)) j⟩

/-- **The last gap wins.**  A cell in gaps shows the character of the one that begins last in
reading order. -/
theorem exists_isLastGap (hp : g.HasGap maxGap p) (hcell : p.Covers i j) :
    ∃ last, g.IsLastGap maxGap i j last ∧ (g.fillGaps maxGap).get? i j = some last.glyph := by
  obtain ⟨k, hpos, hk, rfl, rfl⟩ := hcell
  have hb := hp.bridged hpos hk
  obtain ⟨winner, hwinner⟩ := hb.exists_bridge?
  obtain ⟨dr, dc, back, ahead, hlast, hmax⟩ := bridge?_last hwinner
  obtain ⟨last, hgap, hcovers, rfl, hstart⟩ := hlast.exists_gap
  refine ⟨last, ⟨hgap, hcovers, ?_⟩, ?_⟩
  · rintro q hq ⟨m, hmpos, hm, hrow, hcol⟩
    have hother := hq.bridged hmpos hm
    rw [hrow, hcol] at hother
    have hle := hmax hother
    have hqstart : q.start = (p.row k - q.step.1 * m, p.col k - q.step.2 * m) := by
      rw [← hrow, ← hcol]
      simp [Gap.row, Gap.col]
    rw [← hstart, ← hqstart] at hle
    exact hle
  · rw [get?_fillGaps, hp.empty k hpos hk, Option.map_some, if_pos rfl, hwinner]
    rfl

/-- Gaps that begin at one cell draw with one character. -/
theorem HasGap.glyph_eq (hp : g.HasGap maxGap p) (hq : g.HasGap maxGap q)
    (h : p.origin = q.origin) : p.glyph = q.glyph := by
  have hstart : p.start = q.start := toLex.injective h
  have hbefore := hp.before
  rw [hstart, hq.before] at hbefore
  exact (Option.some.inj hbefore).symm

/-- A gap over a cell interrupts a line there: it lacks an arm of the line, and begins after every
gap over the cell that continues the line. -/
structure Interrupts (g : Grid) (maxGap : Nat) (i j : Int) (glyph : Char) (q : Gap) : Prop where
  hasGap : g.HasGap maxGap q
  covers : q.Covers i j
  lacks : ¬ Glyph.Continues q.glyph glyph
  later : ∀ r, g.HasGap maxGap r → r.Covers i j → Glyph.Continues r.glyph glyph →
    r.origin < q.origin

/-- The last gap over a cell continues a line exactly if no gap interrupts the line there. -/
theorem IsLastGap.continues_iff {last : Gap} (h : g.IsLastGap maxGap i j last) :
    Glyph.Continues last.glyph glyph ↔ ¬ ∃ q, g.Interrupts maxGap i j glyph q := by
  constructor
  · rintro hcontinues ⟨q, hq⟩
    have hlater := hq.later last h.hasGap h.covers hcontinues
    exact absurd (h.last q hq.hasGap hq.covers) (not_le_of_gt hlater)
  · intro hnone
    by_contra hlacks
    refine hnone ⟨last, h.hasGap, h.covers, hlacks, ?_⟩
    intro r hr hcell hcontinues
    refine lt_of_le_of_ne (h.last r hr hcell) fun horigin => hlacks ?_
    rw [← hr.glyph_eq h.hasGap horigin]
    exact hcontinues

/-- A gap along a row wins all its cells: those in other directions begin above them. -/
theorem IsLastGap.glyph_eq_horizontal {last : Gap} (h : g.IsLastGap maxGap i j last)
    (hq : g.HasGap maxGap q) (hcell : q.Covers i j) (hglyph : q.glyph = Glyph.horizontal) :
    last.glyph = Glyph.horizontal := by
  have hle := Prod.Lex.toLex_le_toLex.mp (h.last q hq hcell)
  obtain ⟨k, -, -, hqrow, -⟩ := hcell
  obtain ⟨m, hpos, -, hrow, -⟩ := h.covers
  have hlevel : q.step = (0, 1) := by
    have hstep := q.isStep
    rw [hglyph] at hstep
    exact (Option.some.inj hstep).symm
  rcases Glyph.direction?_cases last.isStep with
    ⟨hlast, -⟩ | ⟨-, hdown, -⟩ | ⟨-, hdown, -⟩ | ⟨-, hdown, -⟩
  · exact hlast
  all_goals
    simp only [Gap.row, hlevel, hdown] at hqrow hrow
    omega

/-- **Gaps are bridged, and the last one wins.**  Every cell of a gap is filled, with the character
of the gap that begins last in reading order among those over the cell.  So the line of the gap goes
on through the cell unless another gap interrupts it there.  A gap along a row is never interrupted,
and one along a column exactly where a gap along a row crosses it. -/
theorem fillGaps_bridges_gap (hp : g.HasGap maxGap p) (hcell : p.Covers i j) :
    ∃ last, g.IsLastGap maxGap i j last ∧ (g.fillGaps maxGap).get? i j = some last.glyph ∧
      (Glyph.Continues last.glyph p.glyph ↔ ¬ ∃ q, g.Interrupts maxGap i j p.glyph q) ∧
      (p.glyph = Glyph.horizontal → last.glyph = Glyph.horizontal) ∧
      (p.glyph = Glyph.vertical → (Glyph.Continues last.glyph p.glyph ↔
        ∀ q, g.HasGap maxGap q → q.Covers i j → q.glyph ≠ Glyph.horizontal)) := by
  obtain ⟨last, hlast, hshown⟩ := exists_isLastGap hp hcell
  refine ⟨last, hlast, hshown, hlast.continues_iff, hlast.glyph_eq_horizontal hp hcell, ?_⟩
  intro hvertical
  have hsame : Glyph.Continues last.glyph p.glyph ↔ last.glyph ≠ Glyph.horizontal := by
    have hmem := Glyph.mem_of_direction? last.isStep
    rw [Glyph.continues_iff last.isStep p.isStep, hvertical]
    constructor
    · rintro (heq | heq | heq) <;> rw [heq] <;> decide
    · intro hne
      simpa [or_left_comm] using hmem.resolve_left hne
  rw [hsame]
  constructor
  · intro hne q hq hqcell hglyph
    exact hne (hlast.glyph_eq_horizontal hq hqcell hglyph)
  · intro hnone
    exact hnone last hlast.hasGap hlast.covers

/-- A gap along a row interrupts one along a column. -/
theorem fillGaps_bridges_gap_crossing :
    let g := ofLines 3 [" │ ".toList, "─ ─".toList, " │ ".toList]
    let p : Gap := ⟨Glyph.vertical, (0, 1), (1, 0), rfl, 1⟩
    g.HasGap 1 p ∧ p.Covers 1 1 ∧
      ∃ last, g.IsLastGap 1 1 1 last ∧ (g.fillGaps 1).get? 1 1 = some last.glyph ∧
        last.glyph = Glyph.horizontal ∧ ¬ Glyph.Continues last.glyph p.glyph := by
  intro g p
  have hp : g.HasGap 1 p := by
    refine ⟨le_rfl, le_rfl, by decide, by decide, ?_⟩
    intro k hpos hk
    obtain rfl : k = 1 := le_antisymm hk hpos
    decide
  have hcell : p.Covers 1 1 := ⟨1, le_rfl, le_rfl, rfl, rfl⟩
  obtain ⟨last, hlast, hshown, -, -, hcolumn⟩ := fillGaps_bridges_gap hp hcell
  have hglyph : last.glyph = Glyph.horizontal := by
    have hfilled : (g.fillGaps 1).get? 1 1 = some Glyph.horizontal := by decide +kernel
    rw [hfilled] at hshown
    exact (Option.some.inj hshown).symm
  refine ⟨hp, hcell, last, hlast, hshown, hglyph, fun hcontinues => ?_⟩
  exact (hcolumn rfl).mp hcontinues last hlast.hasGap hlast.covers hglyph

end Grid

end Tromp
