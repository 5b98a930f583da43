import Tromp.Proofs.Drawing.Nested

/-!
# Drawing a spine in passes

An application `f₁ (f₂ (… (fₙ x)))` is drawn in passes over its spine: the functions from left to
right, each right of the one before, then `x`, then the bars from the innermost application outward.
Colours are taken and labels are placed in this order.  `Painter.drawAt_argument` says, for every
arithmetic, that this is what the painter does.

The last theorem puts it next to plain drawing: in exact arithmetic the passes give what the
recursion into both operands gives.
-/

namespace Tromp

/-- The applications along the spine of a term, outermost first, each by its function and its
argument. -/
def Term.applications : Term → List (Term × Term)
  | .var .. => []
  | .lam .. => []
  | .app f a => (f, a) :: applications a

/-- An application along a spine, with the offset and the drawing of its function. -/
structure SpineNode (α : Type) [Scalar α] where
  function : Term
  argument : Term
  offset : α
  drawn : Fragment α

namespace Painter

variable {α : Type} [Scalar α]

/-- The first pass draws the functions from left to right.  It gives the offset right of them. -/
def drawFunctions (p : Painter α) (site : Site α) :
    List (Term × Term) → α → Paint α Empty (List (SpineNode α) × α)
  | [], offset => return ([], offset)
  | (f, a) :: rest, offset => do
    let drawn ← p.draw f (site.right offset)
    let (nodes, last) ← drawFunctions p site rest
      (offset + Scalar.ofNat (2 * drawn.width) * p.unit)
    return (⟨f, a, offset, drawn⟩ :: nodes, last)

/-- The last pass draws the bars from the innermost application outward, given the drawing of what
stands at the end of the spine. -/
def joinNodes (p : Painter α) (site : Site α) (tail : Fragment α) :
    List (SpineNode α) → Paint α Empty (Fragment α)
  | [] => return tail
  | node :: rest => do
    let inner ← joinNodes p site tail rest
    let row := max node.drawn.height inner.height
    let bars ← p.join node.function node.argument node.drawn inner.stem row
      (site.right node.offset)
    return { width := node.drawn.width + inner.width, height := row + 1, stem := row,
             primitives := bars.map (Primitive.translate node.offset Scalar.zero) ++
               (node.drawn.translate node.offset Scalar.zero).primitives ++ inner.primitives }

/-- Draws a term in passes over its spine, from an offset on. -/
def drawInPasses (p : Painter α) (t : Term) (offset : α) (site : Site α) :
    Paint α Empty (Fragment α) := do
  let (nodes, last) ← p.drawFunctions site t.applications offset
  let tail ← p.draw t.spine.2 (site.right last)
  p.joinNodes site (tail.translate last Scalar.zero) nodes

/-- A term without a spine is drawn by its second pass. -/
theorem drawInPasses_of_applications_eq_nil (p : Painter α) {t : Term} (offset : α) (site : Site α)
    (happ : t.applications = []) (htail : t.spine.2 = t) :
    p.drawInPasses t offset site = do
      let tail ← p.draw t (site.right offset)
      return tail.translate offset Scalar.zero := by
  simp only [drawInPasses, happ, htail, drawFunctions, joinNodes, pure_bind]

/-- An argument is drawn in passes over its spine, in the frame around it. -/
theorem drawAt_argument (p : Painter α) (t : Term) (offset : α) (site : Site α) :
    p.drawAt t (.argument offset) site = p.drawInPasses t offset site := by
  induction t using Term.induction generalizing offset with
  | var name index free =>
      rw [drawInPasses_of_applications_eq_nil p offset site rfl rfl]
      rfl
  | lam name numeral body ih =>
      rw [drawInPasses_of_applications_eq_nil p offset site rfl rfl, draw, drawAt, drawAt,
        isForeign_term]
      rfl
  | app f a ihf iha =>
      rw [drawAt]
      simp only [Position.isAlone, Bool.false_and, Bool.false_eq_true, if_false, Position.offset,
        iha]
      simp only [drawInPasses, Term.applications, Tree.spine, drawFunctions, joinNodes, draw,
        bind_assoc, pure_bind]

/-- **An application is drawn in passes over its spine.** -/
theorem draw_app (p : Painter α) (f a : Term) (site : Site α) :
    p.draw (.app f a) site = p.drawInPasses (.app f a) 0.0 site := by
  rw [← drawAt_argument, draw, drawAt, drawAt, isForeign_term, isForeign_term]
  rfl

/-- **Passes and recursion draw the same.**  For every term, site and state of the painter, the
drawing, or the fault, and the state after it are those of plain drawing. -/
theorem draw_eq_drawNested (p : Painter Rat) (t : Term) (site : Site Rat) :
    p.draw t site = p.drawNested t site ∧ p.drawInPasses t 0 site = p.drawNested t site := by
  refine ⟨p.drawAt_alone t site, ?_⟩
  have hid : (fun d : Fragment Rat => d.translate 0 0) = id := funext Fragment.translate_zero
  calc p.drawInPasses t 0 site
      = p.drawAt t (.argument 0) site := (p.drawAt_argument t 0 site).symm
    _ = (fun d => d.translate 0 0) <$> p.drawNested t (site.right 0) :=
        p.drawAt_eq_map_drawNested t (.argument 0) site
    _ = p.drawNested t site := by rw [hid, id_map, Site.right_zero]

end Painter

end Tromp
