import Mathlib.Data.List.Forall2
import Tromp.Grid.Raster
import Tromp.Proofs.Grid.Cells

/-!
# The order of the lines

A raster shows a set of lines: neither the order in which they are listed nor, along a row or a
column, the end from which they are drawn makes a difference.  Only the drawing has to be looked at.
The size of the grid and the factors of the canvas depend on the number of lines alone, and the
repair of crossings and gaps on the drawn grid alone.
-/

namespace Tromp

variable {α : Type}

namespace Ends

/-- The line with its ends swapped. -/
def swap (e : Ends α) : Ends α := ⟨e.x2, e.y2, e.x1, e.y1⟩

/-- Whether a line runs straight up or straight across. -/
def IsAxisAligned (e : Ends α) : Prop := e.x1 = e.x2 ∨ e.y1 = e.y2

instance [DecidableEq α] (e : Ends α) : Decidable e.IsAxisAligned :=
  inferInstanceAs (Decidable (_ ∨ _))

end Ends

/-- Whether some lines are others in another order, of which some that may be turned round are
turned round. -/
def Rearranged (mayTurn : Ends α → Prop) (lines lines' : List (Ends α)) : Prop :=
  ∃ turned : List (Ends α),
    List.Forall₂ (fun l m => m = l ∨ mayTurn l ∧ m = l.swap) lines turned ∧ turned.Perm lines'

theorem Rearranged.length_eq {mayTurn : Ends α → Prop} {lines lines' : List (Ends α)}
    (h : Rearranged mayTurn lines lines') : lines.length = lines'.length := by
  obtain ⟨turned, hturned, hperm⟩ := h
  exact hturned.length_eq.trans hperm.length_eq

/-- What is mapped line by line stays rearranged, if turning a line round turns its image round. -/
theorem Rearranged.map {β : Type} {mayTurn : Ends α → Prop} {mayTurn' : Ends β → Prop}
    {lines lines' : List (Ends α)} (f : Ends α → Ends β) (hswap : ∀ l, f l.swap = (f l).swap)
    (hturn : ∀ l, mayTurn l → mayTurn' (f l)) (h : Rearranged mayTurn lines lines') :
    Rearranged mayTurn' (lines.map f) (lines'.map f) := by
  obtain ⟨turned, hturned, hperm⟩ := h
  refine ⟨turned.map f, ?_, hperm.map f⟩
  rw [List.forall₂_map_left_iff, List.forall₂_map_right_iff]
  refine hturned.imp ?_
  rintro l m (rfl | ⟨hl, rfl⟩)
  · exact Or.inl rfl
  · exact Or.inr ⟨hturn l hl, hswap l⟩

namespace Grid

/-- Draws a line between two cells. -/
abbrev drawEnds (g : Grid) (l : Ends Int) : Grid := g.drawLine l.x1 l.y1 l.x2 l.y2

/-- Lines that are turned round are drawn the same. -/
theorem foldl_drawEnds_of_turned {lines turned : List (Ends Int)}
    (h : List.Forall₂ (fun l m => m = l ∨ l.IsAxisAligned ∧ m = l.swap) lines turned) (g : Grid) :
    lines.foldl drawEnds g = turned.foldl drawEnds g := by
  induction h generalizing g with
  | nil => rfl
  | @cons l m lines turned hm _ ih =>
      have hline : g.drawEnds l = g.drawEnds m := by
        rcases hm with rfl | ⟨hl, rfl⟩
        · rfl
        · exact (drawLine_swap hl).symm
      rw [List.foldl_cons, List.foldl_cons, hline]
      exact ih _

/-- Rearranged lines are drawn the same. -/
theorem foldl_drawEnds_of_rearranged {lines lines' : List (Ends Int)}
    (h : Rearranged Ends.IsAxisAligned lines lines') (g : Grid) :
    lines.foldl drawEnds g = lines'.foldl drawEnds g := by
  obtain ⟨turned, hturned, hperm⟩ := h
  rw [foldl_drawEnds_of_turned hturned]
  exact hperm.foldl_eq' (fun _ _ _ _ _ => drawLine_comm _ _ _ _ _ _ _ _) g

end Grid

namespace Raster

theorem ofCells_of_rearranged {lines lines' : List (Ends Int)} (rows cols : Nat)
    (h : Rearranged Ends.IsAxisAligned lines lines') :
    ofCells rows cols lines = ofCells rows cols lines' := by
  have hdrawn := Grid.foldl_drawEnds_of_rearranged h (Grid.blank rows cols)
  simp only [ofCells, hdrawn, h.length_eq]

variable [Scalar α]

/-- A line along an axis of the canvas runs along an axis of the grid. -/
theorem isAxisAligned_cellsOf {l : Ends α} {factors : α × α} {cols : Nat} {rows : Int}
    (h : l.IsAxisAligned) : (cellsOf l factors cols rows).IsAxisAligned := by
  rcases h with h | h
  · exact Or.inl (by rw [cellsOf, h])
  · exact Or.inr (by rw [cellsOf, h])

/-- Whether a line runs along an axis: of the canvas, or at least of the grid on which so many lines
are drawn. -/
def RunsAlongAxis (width height : α) (lines : Nat) (terminal : Option Int) (l : Ends α) : Prop :=
  let cols := columns width height lines terminal
  let rows := rows width height cols
  l.IsAxisAligned ∨ (cellsOf l (factors width height cols rows) cols rows).IsAxisAligned

/-- **The order of the lines does not matter**, nor the order of the ends of a line along an axis: a
canvas is refused for all arrangements of its lines or for none, and the grid is the same for
all. -/
theorem ofLines_eq_of_rearranged (width height : α) (terminal : Option Int)
    {lines lines' : List (Ends α)}
    (h : Rearranged (RunsAlongAxis width height lines.length terminal) lines lines') :
    size? width height lines.length terminal = size? width height lines'.length terminal ∧
      ofLines lines width height terminal = ofLines lines' width height terminal := by
  refine ⟨by rw [h.length_eq], ?_⟩
  simp only [ofLines, ← h.length_eq]
  refine ofCells_of_rearranged _ _ (h.map _ (fun _ => rfl) ?_)
  rintro l (hl | hl)
  · exact isAxisAligned_cellsOf hl
  · exact hl

/-- Three lines that cross, listed backwards, and the level one drawn from its right end. -/
theorem ofLines_eq_of_rearranged_crossing :
    Rearranged (RunsAlongAxis (100 : Rat) 80 3 (some 30))
        ([⟨0, 0, 100, 50⟩, ⟨0, 20, 100, 20⟩, ⟨50, 0, 50, 80⟩] : List (Ends Rat))
        [⟨50, 0, 50, 80⟩, ⟨100, 20, 0, 20⟩, ⟨0, 0, 100, 50⟩] ∧
      ofLines ([⟨0, 0, 100, 50⟩, ⟨0, 20, 100, 20⟩, ⟨50, 0, 50, 80⟩] : List (Ends Rat))
          100 80 (some 30) =
        ofLines ([⟨50, 0, 50, 80⟩, ⟨100, 20, 0, 20⟩, ⟨0, 0, 100, 50⟩] : List (Ends Rat))
          100 80 (some 30) := by
  have h : Rearranged (RunsAlongAxis (100 : Rat) 80 3 (some 30))
      ([⟨0, 0, 100, 50⟩, ⟨0, 20, 100, 20⟩, ⟨50, 0, 50, 80⟩] : List (Ends Rat))
      [⟨50, 0, 50, 80⟩, ⟨100, 20, 0, 20⟩, ⟨0, 0, 100, 50⟩] := by
    have hlevel : RunsAlongAxis (100 : Rat) 80 3 (some 30) (⟨0, 20, 100, 20⟩ : Ends Rat) :=
      .inl (.inr rfl)
    refine ⟨[⟨0, 0, 100, 50⟩, ⟨100, 20, 0, 20⟩, ⟨50, 0, 50, 80⟩], ?_, List.reverse_perm [_, _, _]⟩
    exact .cons (.inl rfl) (.cons (.inr ⟨hlevel, rfl⟩) (.cons (.inl rfl) .nil))
  have hlength : 3 =
      ([⟨0, 0, 100, 50⟩, ⟨0, 20, 100, 20⟩, ⟨50, 0, 50, 80⟩] : List (Ends Rat)).length := rfl
  refine ⟨h, ?_⟩
  rw [hlength] at h
  exact (ofLines_eq_of_rearranged 100 80 (some 30) h).2

end Raster

end Tromp
