import Mathlib.Tactic.Ring
import Tromp.Drawing.Painter
import Tromp.Proofs.Arithmetic.Exact

/-!
# Plain drawing

`Painter.drawNested` draws an application in the plain way: it draws the function, then the argument
as a term of its own, joins them, and moves the whole drawing of the argument to the right.  The
painter does not: it draws all operands of `f₁ (f₂ (… (fₙ x)))` in one frame and moves each of them
once.

In exact arithmetic the two are one computation, the colours and label boxes they use up included.
The key fact is `Painter.drawAt_eq_map_drawNested`: a term at an offset in a frame is drawn like the
term on its own, at the site moved by the offset, and the drawing is moved back.
-/

namespace Tromp

namespace Painter

variable {α : Type} [Scalar α]

/-- Draws a term by recursion into both operands of every application. -/
def drawNested (p : Painter α) : Term → Site α → Paint α Empty (Fragment α)
  | .var name index free, site => p.drawVariable name index free site
  | .lam name numeral body, site => p.drawAbstraction name numeral body (drawNested p body) site
  | .app f a, site => do
    let function ← drawNested p f site
    let dx := Scalar.ofNat (2 * function.width) * p.unit
    let argument ← drawNested p a (site.right dx)
    let row := max function.height argument.height
    let bars ← p.join f a function argument.stem row site
    return { width := function.width + argument.width, height := row + 1, stem := row,
             primitives := bars ++ function.primitives ++
               (argument.translate dx Scalar.zero).primitives }

end Painter

/-! ### Moving sites and drawings -/

theorem Site.right_right (site : Site Rat) (a b : Rat) :
    (site.right a).right b = site.right (a + b) := by
  simp [Site.right, add_assoc]

theorem Site.right_zero (site : Site Rat) : site.right 0 = site := by
  simp [Site.right]

theorem Primitive.translate_translate (x : Primitive Rat) (a b c d : Rat) :
    (x.translate a b).translate c d = x.translate (a + c) (b + d) := by
  cases x <;> simp [translate, add_assoc]

/-- What is seen of primitives moves with them, if that is so for each of them. -/
theorem Primitive.filterMap_translate {α β : Type} [Scalar α] {view : Primitive α → Option β}
    {dx dy : α} {move : β → β} (h : ∀ q, view (q.translate dx dy) = (view q).map move)
    (ps : List (Primitive α)) :
    (ps.map (translate dx dy)).filterMap view = (ps.filterMap view).map move := by
  rw [List.filterMap_map, List.map_filterMap]
  exact congrArg (ps.filterMap ·) (funext h)

theorem Primitive.translate_zero (x : Primitive Rat) : x.translate 0 0 = x := by
  cases x <;> simp [translate]

theorem Fragment.translate_zero (d : Fragment Rat) : d.translate 0 0 = d := by
  have hid : (Primitive.translate 0 0 : Primitive Rat → Primitive Rat) = id :=
    funext Primitive.translate_zero
  simp [translate, hid]

namespace Painter

variable (p : Painter Rat)

/-- A frame of its own is nowhere else: what is drawn there need not be moved. -/
theorem map_translate_alone {ε : Type} (draw : Site Rat → Paint Rat ε (Fragment Rat))
    (site : Site Rat) :
    (fun d => d.translate Position.alone.offset 0) <$> draw (site.right Position.alone.offset) =
      draw site := by
  have hoffset : (Position.alone : Position Rat).offset = 0 := Scalar.decimal_zero_rat
  have hid : (fun d : Fragment Rat => d.translate 0 0) = id := funext Fragment.translate_zero
  rw [hoffset, hid, id_map, Site.right_zero]

/-- A leaf or an abstraction is drawn where its frame is, and moved back. -/
theorem inFrame_eq_map {ε : Type} (position : Position Rat) (site : Site Rat)
    (draw : Site Rat → Paint Rat ε (Fragment Rat)) :
    inFrame position site draw =
      (fun d => d.translate position.offset 0) <$> draw (site.right position.offset) := by
  cases position with
  | alone => exact (map_translate_alone draw site).symm
  | argument offset => rfl

theorem isForeign_term (t : Term) : isForeign t = false := by
  cases t using Term.induction <;> rfl

/-- **Drawing in one frame.**  A term at an offset is drawn like the term on its own, at the site
moved by the offset, and the drawing is moved by the offset. -/
theorem drawAt_eq_map_drawNested (t : Term) (position : Position Rat) (site : Site Rat) :
    p.drawAt t position site =
      (fun d => d.translate position.offset 0) <$> p.drawNested t (site.right position.offset) := by
  induction t using Term.induction generalizing position site with
  | var name index free => exact inFrame_eq_map position site _
  | lam name numeral body ih =>
      have hbody : p.drawAt body .alone = p.drawNested body := by
        funext own
        rw [ih .alone own, map_translate_alone]
      rw [drawAt, isForeign_term]
      simp only [Bool.false_eq_true, if_false]
      rw [inFrame_eq_map, hbody]
      rfl
  | app f a ihf iha =>
      have hfunction := (ihf .alone (site.right position.offset)).trans (map_translate_alone _ _)
      rw [drawAt, isForeign_term, isForeign_term, drawNested]
      simp only [Bool.or_false, Bool.and_false, Bool.false_eq_true, if_false, hfunction,
        map_eq_pure_bind, bind_assoc, pure_bind]
      refine bind_congr fun function => ?_
      -- The argument is moved once in the frame, and twice by the recursion.
      rw [iha]
      have hargument : ∀ offset : Rat, (Position.argument offset).offset = offset := fun _ => rfl
      simp only [map_eq_pure_bind, bind_assoc, pure_bind, hargument, Site.right_right]
      refine bind_congr fun argument => ?_
      refine bind_congr fun bars => ?_
      congr 1
      simp [Fragment.translate, Primitive.translate_translate, add_comm]

/-- A term in a frame of its own is drawn plainly. -/
theorem drawAt_alone (t : Term) (site : Site Rat) :
    p.drawAt t .alone site = p.drawNested t site :=
  (p.drawAt_eq_map_drawNested t .alone site).trans (map_translate_alone _ _)

end Painter

end Tromp
