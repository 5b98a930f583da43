import Tromp.Grid.Basic

/-!
# Junctions and gaps

Two passes finish a grid of lines.  The first replaces every marker by the junction that joins the
neighbours reaching it.  The second bridges short gaps between two equal line characters along the
direction that they draw.  Both look only at the grid before the pass.
-/

namespace Tromp.Grid

/-- Whether the neighbour of a position on a side reaches back to it. -/
def isReachedFrom (g : Grid) (row col : Int) (s : Side) : Bool :=
  match g.get? (row + s.step.1) (col + s.step.2) with
  | some c => Glyph.reaches c s.opposite
  | none => false

/-- The junction that joins the neighbours of a position. -/
def junctionAt (g : Grid) (row col : Int) : Char :=
  let reached := g.isReachedFrom row col
  Glyph.junction (reached .north) (reached .east) (reached .south) (reached .west)

/-- Replaces every marker by a junction. -/
def resolveCrossings (g : Grid) : Grid :=
  g.mapCells fun r c x => if x = Glyph.marker then g.junctionAt r c else x

/-- The number of empty cells after a position in a direction, up to a limit. -/
def emptyAfter (g : Grid) (direction : Int × Int) : Nat → Int → Int → Nat
  | 0, _, _ => 0
  | limit + 1, row, col =>
    let row := row + direction.1
    let col := col + direction.2
    if g.get? row col = some Glyph.blank then emptyAfter g direction limit row col + 1 else 0

/-- The length of the gap that begins after a position: at most `maxGap` empty cells between a line
character there and the same character in the direction that it draws. -/
def gapAfter (g : Grid) (maxGap : Nat) (glyph : Char) (row col : Int) : Nat :=
  match Glyph.direction? glyph with
  | some (dr, dc) =>
    let n := g.emptyAfter (dr, dc) maxGap row col
    if g.get? row col = some glyph ∧
        g.get? (row + dr * (n + 1 : Nat)) (col + dc * (n + 1 : Nat)) = some glyph then n
    else 0
  | none => 0

/-- Whether a position is the `k`th of a gap between two equal line characters. -/
def isBridged (g : Grid) (maxGap : Nat) (row col : Int) (glyph : Char) (k : Nat) : Bool :=
  match Glyph.direction? glyph with
  | some (dr, dc) => decide (k ≤ g.gapAfter maxGap glyph (row - dr * k) (col - dc * k))
  | none => false

/-- The character that bridges a position, if it lies in a gap.  Of several gaps the one that begins
last in reading order counts: one in the same row first, then the nearest above, and of those that
begin in one row the one furthest to the right. -/
def bridge? (g : Grid) (maxGap : Nat) (row col : Int) : Option Char :=
  let distances := (List.range maxGap).map (· + 1)
  let level := distances.find? fun k => g.isBridged maxGap row col Glyph.horizontal k
  let above := distances.findSome? fun k =>
    [Glyph.rising, Glyph.vertical, Glyph.falling].find? fun glyph =>
      g.isBridged maxGap row col glyph k
  match level with
  | some _ => some Glyph.horizontal
  | none => above

/-- Bridges gaps of at most `maxGap` cells. -/
def fillGaps (g : Grid) (maxGap : Nat) : Grid :=
  g.mapCells fun r c x => if x = Glyph.blank then (g.bridge? maxGap r c).getD x else x

end Tromp.Grid
