import Mathlib.Algebra.GroupWithZero.Nat
import Tromp.Term.Binding
import Tromp.Term.Numeral
import Tromp.Term.Printer

/-!
# Walks along spines

Right-nested applications `f₁ (f₂ (… (fₙ x)))` get long, so a program that walks over terms does not
descend into the argument of every application.  It takes the whole spine apart, walks over the
functions `f₁, …, fₙ` and over `x`, and puts the results together in a loop.  `Walk.run` is that
scheme, and each of the walks below is its instance with one way of putting results together.

The functions on terms are defined by recursion into both operands.  `walks_agree` says that they
are what the walks compute, in every context.

1.  A function that makes its value at an application from values at the operands is a fold over the
    spine (`Tree.eq_foldr_spine`).
2.  So if a walk puts the values along a spine together as that fold does, it is the function
    (`Walk.run_eq`): the functions of the spine may have spines of their own, and the induction is
    on the walk.
-/

namespace Tromp

/-! ### Spines -/

namespace Tree

variable {ε β : Type} {t f : Tree ε}

/-- **What is made of both operands is a fold over the spine**, where functions are looked at by `k`
and arguments by `g`. -/
theorem eq_foldr_spine {g k : Tree ε → β} (step : β → β → β)
    (h : ∀ f a, g (.app f a) = step (k f) (g a)) (t : Tree ε) :
    g t = (t.spine.1.map k).foldr step (g t.spine.2) := by
  induction t with
  | foreign | var | lam => rfl
  | app f a _ iha =>
      calc g (.app f a) = step (k f) (g a) := h f a
        _ = step (k f) ((a.spine.1.map k).foldr step (g a.spine.2)) := by rw [← iha]

theorem sizeOf_lt_of_mem_spine (h : f ∈ t.spine.1) : sizeOf f < sizeOf t := by
  induction t with
  | foreign | var | lam => cases h
  | app g a _ iha =>
      rw [app.sizeOf_spec]
      rcases List.mem_cons.mp h with rfl | h
      · omega
      · have := iha h
        omega

theorem sizeOf_spine_le (t : Tree ε) : sizeOf t.spine.2 ≤ sizeOf t := by
  induction t with
  | foreign | var | lam => exact Nat.le_refl _
  | app f a _ iha =>
      have hlt : sizeOf a < sizeOf (app f a) := by rw [app.sizeOf_spec]; omega
      exact Nat.le_of_lt (Nat.lt_of_le_of_lt iha hlt)

end Tree

/-! ### Walks -/

/-- What a walk does in a context in `γ`, with results in `β`. -/
structure Walk (γ β : Type) where
  /-- The result for a variable. -/
  var : γ → Option String → Option Nat → Bool → β
  /-- The result for an abstraction, from that for its body. -/
  lam : γ → Option String → Option Int → β → β
  /-- The result for an application, from those for the functions of its spine and for what the last
  of them is applied to. -/
  join : γ → List β → β → β
  /-- The context in the body of an abstraction. -/
  body : γ → Option String → γ
  /-- The context of the functions of a spine. -/
  func : γ → γ := id
  /-- The context of what the last function is applied to. -/
  tail : γ → γ := id

namespace Walk

variable {γ β : Type}

/-- Walks over a term, along the spines of its applications. -/
def run (w : Walk γ β) (c : γ) : Term → β
  | .foreign value => value.elim
  | .var name index free => w.var c name index free
  | .lam name numeral body => w.lam c name numeral (w.run (w.body c name) body)
  | .app f a =>
    w.join c ((Tree.spine (.app f a)).1.attach.map fun g => w.run (w.func c) g.1)
      (w.run (w.tail c) (Tree.spine (.app f a)).2)
termination_by t => sizeOf t
decreasing_by
  · rw [Tree.lam.sizeOf_spec]; omega
  · exact Tree.sizeOf_lt_of_mem_spine g.2
  · exact Nat.lt_of_le_of_lt (Tree.sizeOf_spine_le a) (by rw [Tree.app.sizeOf_spec]; omega)

/-- **A walk is a function** that does the same with variables and abstractions, and whose values at
applications are put together along spines in the same way. -/
theorem run_eq (w : Walk γ β) (plain : γ → Term → β)
    (hvar : ∀ c name index free, plain c (.var name index free) = w.var c name index free)
    (hlam : ∀ c name numeral body, plain c (.lam name numeral body) =
      w.lam c name numeral (plain (w.body c name) body))
    (happ : ∀ c f a, plain c (.app f a) =
      w.join c ((Tree.spine (.app f a)).1.map (plain (w.func c)))
        (plain (w.tail c) (Tree.spine (.app f a)).2))
    (c : γ) (t : Term) : w.run c t = plain c t := by
  fun_induction w.run c t with
  | case1 c value => exact value.elim
  | case2 c name index free => exact (hvar c name index free).symm
  | case3 c name numeral body ih => rw [hlam, ih]
  | case4 c f a ihfuncs ihtail =>
      have hfuncs : ((Tree.spine (.app f a)).1.attach.map fun g => w.run (w.func c) g.1) =
          (Tree.spine (.app f a)).1.map (plain (w.func c)) := by
        rw [List.map_congr_left fun g _ => ihfuncs g, List.attach_map_val]
      rw [happ, hfuncs, ihtail]

/-- A walk that goes through a spine in one context and folds the values up is the function that
makes its value at an application from those at the operands. -/
theorem run_eq_of_foldr (w : Walk γ β) (plain : γ → Term → β) (step : β → β → β)
    (hvar : ∀ c name index free, plain c (.var name index free) = w.var c name index free)
    (hlam : ∀ c name numeral body, plain c (.lam name numeral body) =
      w.lam c name numeral (plain (w.body c name) body))
    (happ : ∀ c f a, plain c (.app f a) = step (plain c f) (plain c a))
    (hjoin : ∀ c values value, w.join c values value = values.foldr step value)
    (hfunc : w.func = id) (htail : w.tail = id) (c : γ) (t : Term) : w.run c t = plain c t := by
  refine run_eq w plain hvar hlam ?_ c t
  intro c f a
  rw [hjoin, hfunc, htail]
  exact Tree.eq_foldr_spine step (happ c) (.app f a)

/-! ### The walks of this library -/

/-- Counts variables and abstractions: the counts along a spine are added up. -/
def size : Walk Unit Nat where
  var _ _ _ _ := 1
  lam _ _ _ n := 1 + n
  join _ counts n := counts.sum + n
  body _ _ := ()

/-- Lists the names of free variables from left to right. -/
def freeVars : Walk Unit (List String) where
  var _ name _ free := if free then name.toList else []
  lam _ _ _ names := names
  join _ lists names := lists.flatten ++ names
  body _ _ := ()

/-- Checks the indices below a number of abstractions. -/
def isValid : Walk Int Bool where
  var depth _ index free :=
    match index with
    | none => false
    | some i => free || (i : Int) < depth
  lam _ _ _ b := b
  join _ bs b := bs.all id && b
  body depth _ := depth + 1

/-- Checks that there are indices. -/
def isResolved : Walk Unit Bool where
  var _ _ index _ := index.isSome
  lam _ _ _ b := b
  join _ bs b := bs.all id && b
  body _ _ := ()

/-- Prints a term at a level: on its own at most at level zero, as a function at level one and as an
argument from level two on.  Along a spine the text is built from its end.  Every application but
the outermost one is an argument and stands in parentheses. -/
def pretty : Walk Int String where
  var _ name _ _ := Term.nameText name
  lam level name _ text := Term.parenthesize (level > 0) ("λ" ++ Term.nameText name ++ "." ++ text)
  join level texts text :=
    match texts with
    | [] => text
    | first :: rest =>
      let inner := rest.foldr (fun func text => "(" ++ (func ++ " " ++ text) ++ ")") text
      Term.parenthesize (level > 1) (first ++ " " ++ inner)
  body _ _ := 0
  func _ := 1
  tail _ := 2

/-- Measures the diagram of a term: along a spine, from the innermost application outward. -/
def measure : Walk Unit (Nat × Nat) where
  var _ _ _ _ := (1, 0)
  lam _ _ _ size := (size.1, size.2 + 1)
  join _ funcs tail :=
    funcs.foldr (fun func rest => (func.1 + rest.1, max func.2 rest.2 + 1)) tail
  body _ _ := ()

/-- Expands literals.  What a spine ends in comes first, then its functions, the last one first, and
the first fault on the way is reported. -/
def expand : Walk Unit (Except (ExpansionFault Empty) Term) where
  var _ name index free := Tree.expand? (.var name index free)
  lam _ name numeral body := body.map (.lam name numeral)
  join _ funcs tail :=
    funcs.foldr (fun func rest => do
      let arg ← rest
      let func ← func
      return .app func arg) tail
  body _ _ := ()

/-- Resolves names at a depth, in the environment there. -/
def resolve : Walk (Nat × Environment) Term where
  var c name _ _ :=
    match c.2.depth? name with
    | some d => .var name (some (c.1 - d - 1)) false
    | none => .var name (some 0) true
  lam _ name numeral body := .lam name numeral body
  join _ funcs tail := funcs.foldr .app tail
  body c name := (c.1 + 1, c.2.bind name c.1)

end Walk

/-! ### Walks and functions agree -/

/-- The place that a level of printing stands for. -/
def Term.Place.ofLevel (level : Int) : Term.Place :=
  if level > 1 then .argument else if level > 0 then .function else .top

section Loops

variable {γ : Type}

theorem foldr_add_eq_sum (ns : List Nat) (n : Nat) : ns.foldr (· + ·) n = ns.sum + n := by
  induction ns with
  | nil => simp
  | cons m ns ih => simp [ih, Nat.add_assoc]

theorem foldr_and_eq_all (bs : List Bool) (b : Bool) :
    bs.foldr (· && ·) b = (bs.all id && b) := by
  induction bs with
  | nil => simp
  | cons c bs ih => simp [ih, Bool.and_assoc]

theorem foldr_append_eq_flatten (ls : List (List γ)) (l : List γ) :
    ls.foldr (· ++ ·) l = ls.flatten ++ l := by
  induction ls with
  | nil => simp
  | cons m ls ih => simp [ih]

end Loops

namespace Walk

open Term (Place)

theorem run_size (t : Term) : size.run () t = t.size :=
  run_eq_of_foldr size (fun _ => Term.size) (· + ·) (fun _ _ _ _ => rfl) (fun _ _ _ _ => rfl)
    (fun _ _ _ => rfl) (fun _ ns n => (foldr_add_eq_sum ns n).symm) rfl rfl () t

theorem run_freeVars (t : Term) : freeVars.run () t = t.freeVars :=
  run_eq_of_foldr freeVars (fun _ => Term.freeVars) (· ++ ·) (fun _ _ _ _ => rfl)
    (fun _ _ _ _ => rfl) (fun _ _ _ => rfl) (fun _ ls l => (foldr_append_eq_flatten ls l).symm)
    rfl rfl () t

theorem run_isValid (depth : Int) (t : Term) : isValid.run depth t = t.isValid depth := by
  refine run_eq_of_foldr isValid Term.isValid (· && ·) ?_ (fun _ _ _ _ => rfl) (fun _ _ _ => rfl)
    (fun _ bs b => (foldr_and_eq_all bs b).symm) rfl rfl depth t
  intro depth name index free
  cases index <;> rfl

theorem run_isResolved (t : Term) : isResolved.run () t = t.isResolved :=
  run_eq_of_foldr isResolved (fun _ => Term.isResolved) (· && ·) (fun _ _ _ _ => rfl)
    (fun _ _ _ _ => rfl) (fun _ _ _ => rfl) (fun _ bs b => (foldr_and_eq_all bs b).symm) rfl rfl
    () t

theorem run_measure (t : Term) : measure.run () t = (t.width, t.height) :=
  run_eq_of_foldr measure (fun _ t => (t.width, t.height))
    (fun func rest => (func.1 + rest.1, max func.2 rest.2 + 1)) (fun _ _ _ _ => rfl)
    (fun _ _ _ _ => rfl) (fun _ _ _ => rfl) (fun _ _ _ => rfl) rfl rfl () t

theorem run_expand (t : Term) : expand.run () t = t.expand? :=
  run_eq_of_foldr expand (fun _ => Tree.expand?)
    (fun func rest => do
      let arg ← rest
      let func ← func
      return .app func arg)
    (fun _ _ _ _ => rfl) (fun _ _ _ _ => rfl) (fun _ _ _ => rfl) (fun _ _ _ => rfl) rfl rfl () t

theorem run_resolve (depth : Nat) (env : Environment) (t : Term) :
    resolve.run (depth, env) t = t.resolveAt depth env :=
  run_eq_of_foldr resolve (fun c => Term.resolveAt c.1 c.2) .app (fun _ _ _ _ => rfl)
    (fun _ _ _ _ => rfl) (fun _ _ _ => rfl) (fun _ _ _ => rfl) rfl rfl (depth, env) t

theorem ofLevel_beq_argument (level : Int) :
    (Place.ofLevel level == .argument) = decide (level > 1) := by
  by_cases h : level > 1
  · rw [Place.ofLevel, if_pos h, decide_eq_true h]
    rfl
  · rw [Place.ofLevel, if_neg h, decide_eq_false h]
    split <;> rfl

theorem ofLevel_bne_top (level : Int) : (Place.ofLevel level != .top) = decide (level > 0) := by
  by_cases h : level > 0
  · rw [Place.ofLevel, if_pos h, decide_eq_true h]
    split <;> rfl
  · have hlow : ¬ level > 1 := by omega
    rw [Place.ofLevel, if_neg hlow, if_neg h, decide_eq_false h]
    rfl

/-- Only the outermost application of a spine looks at the level. -/
theorem run_pretty (level : Int) (t : Term) :
    pretty.run level t = t.prettyAt (.ofLevel level) := by
  refine run_eq pretty (fun level => Term.prettyAt (.ofLevel level)) (fun _ _ _ _ => rfl) ?_ ?_
    level t
  · intro level name numeral body
    rw [Term.prettyAt, ofLevel_bne_top]
    rfl
  · intro level f a
    have hinner := Tree.eq_foldr_spine (g := Term.prettyAt .argument) (k := Term.prettyAt .function)
      (fun func text => "(" ++ (func ++ " " ++ text) ++ ")") (fun _ _ => rfl) a
    rw [Term.prettyAt, ofLevel_beq_argument, hinner]
    rfl

end Walk

/-- **Walks and plain recursion agree**: on every term, in every context and at every level, what is
put together along spines is what the recursion into both operands gives.  Where literals cannot be
expanded, both report the same fault. -/
theorem walks_agree (t : Term) :
    Walk.size.run () t = t.size ∧
      Walk.freeVars.run () t = t.freeVars ∧
      (∀ depth : Int, Walk.isValid.run depth t = t.isValid depth) ∧
      Walk.isResolved.run () t = t.isResolved ∧
      (∀ level : Int, Walk.pretty.run level t = t.prettyAt (.ofLevel level)) ∧
      Walk.measure.run () t = (t.width, t.height) ∧
      Walk.expand.run () t = t.expand? ∧
      ∀ depth env, Walk.resolve.run (depth, env) t = t.resolveAt depth env :=
  ⟨Walk.run_size t, Walk.run_freeVars t, fun depth => Walk.run_isValid depth t,
    Walk.run_isResolved t, fun level => Walk.run_pretty level t, Walk.run_measure t,
    Walk.run_expand t, fun depth env => Walk.run_resolve depth env t⟩

end Tromp
