import Tromp.Proofs.Term.Address

/-!
# The strokes of a diagram

The lines of a diagram stand on a grid of columns and rows, one column for each variable.  Which
lines there are, and between which points of the grid, depends on the term alone: `Term.strokes`
lists them in the order of drawing, each with the address of the node it belongs to and its role
there.

1.  `Term.strokes_at?`: the strokes of a term inside another one are strokes of that, moved to where
    it stands, right by its column and down by the abstractions around it.
2.  `Term.nodup_strokes`: a node has at most one stroke in a role.
-/

namespace Tromp

/-- What a line does for its node. -/
inductive StrokeRole where
  /-- The line of a variable. -/
  | variable
  /-- The bar of an abstraction. -/
  | abstraction
  /-- The bar of an application. -/
  | application
  /-- What brings the function of an application down to its bar. -/
  | functionFiller
  /-- What brings the argument of an application down to its bar. -/
  | argumentFiller
deriving DecidableEq, Repr

/-- A line on the grid of columns and rows. -/
structure Stroke where
  node : Address
  role : StrokeRole
  column1 : Nat
  row1 : Int
  column2 : Nat
  row2 : Int
deriving DecidableEq, Repr

namespace Stroke

/-- The node of a stroke and its role there. -/
def key (k : Stroke) : Address × StrokeRole := (k.node, k.role)

/-- The stroke of a term inside another one: at an address, right of some columns and below some
rows. -/
def under (k : Stroke) (π : Address) (columns rows : Nat) : Stroke :=
  { node := π ++ k.node, role := k.role, column1 := columns + k.column1, row1 := rows + k.row1,
    column2 := columns + k.column2, row2 := rows + k.row2 }

theorem under_nil (k : Stroke) : k.under [] 0 0 = k := by
  simp [under]

theorem under_under (k : Stroke) (π σ : Address) (a b c d : Nat) :
    (k.under σ a b).under π c d = k.under (π ++ σ) (c + a) (d + b) := by
  simp [under, Nat.add_assoc, Int.add_assoc]

/-- The line of a variable goes up from the baseline to the bar of its abstraction. -/
def ofVariable (index : Nat) : Stroke :=
  { node := [], role := .variable, column1 := 0, row1 := 0, column2 := 0, row2 := -(index + 1) }

/-- The bar of an abstraction reaches over all columns of its body. -/
def ofAbstraction (columns : Nat) : Stroke :=
  { node := [], role := .abstraction, column1 := 0, row1 := 0, column2 := columns - 1, row2 := 0 }

@[simp] theorem ofAbstraction_node (columns : Nat) : (ofAbstraction columns).node = [] := rfl

/-- A filler goes from the row where a line ends to the row of the bar, if that is further down. -/
def filler (role : StrokeRole) (column stem row : Nat) : List Stroke :=
  if stem < row then
    [{ node := [], role, column1 := column, row1 := stem, column2 := column, row2 := row }]
  else []

/-- The fillers and the bar of an application, whose argument stands right of some columns. -/
def ofApplication (columns functionStem argumentStem row : Nat) : List Stroke :=
  filler .functionFiller 0 functionStem row ++ filler .argumentFiller columns argumentStem row ++
    [{ node := [], role := .application, column1 := 0, row1 := row, column2 := columns,
       row2 := row }]

theorem keys_filler (role : StrokeRole) (column stem row : Nat) :
    ((filler role column stem row).map key).Sublist [([], role)] := by
  unfold filler
  split
  next => exact .refl _
  next => exact List.nil_sublist _

/-- The strokes of an application have its node, and different roles. -/
theorem keys_ofApplication (columns functionStem argumentStem row : Nat) :
    ((ofApplication columns functionStem argumentStem row).map key).Sublist
      [([], .functionFiller), ([], .argumentFiller), ([], .application)] := by
  rw [ofApplication, List.map_append, List.map_append]
  exact ((keys_filler _ _ _ _).append (keys_filler _ _ _ _)).append (.refl _)

theorem node_of_mem_ofApplication {columns functionStem argumentStem row : Nat} {k : Stroke}
    (h : k ∈ ofApplication columns functionStem argumentStem row) : k.node = [] := by
  have hkey := (keys_ofApplication ..).subset (List.mem_map_of_mem h)
  simp only [key, List.mem_cons, Prod.mk.injEq, List.not_mem_nil, or_false] at hkey
  rcases hkey with hkey | hkey | hkey <;> exact hkey.1

end Stroke

namespace Term

/-- The row where the leftmost line of the diagram of a term ends. -/
def stem : Term → Nat
  | .var .. => 0
  | .lam _ _ body => stem body + 1
  | .app f a => max (height f) (height a)

/-- The lines of the diagram of a term, in the order of drawing.  A variable without an index has
none. -/
def strokes : Term → List Stroke
  | .var _ none _ => []
  | .var _ (some i) _ => [.ofVariable i]
  | .lam _ _ body => .ofAbstraction (width body) :: (strokes body).map (·.under [.body] 0 1)
  | .app f a =>
    Stroke.ofApplication (width f) (stem f) (stem a) (max (height f) (height a)) ++
      (strokes f).map (·.under [.func] 0 0) ++ (strokes a).map (·.under [.arg] (width f) 0)

/-- **Strokes stand where their node does.**  The strokes of a term inside another one are strokes
of that one, moved to its column and below the abstractions around it. -/
theorem strokes_at? {t u : Term} {π : Address} (h : t.at? π = some u) {k : Stroke}
    (hk : k ∈ u.strokes) : k.under π (t.column π) π.depth ∈ t.strokes := by
  fun_induction at? t π with
  | case1 t =>
      cases h
      simpa [column, Address.depth, Stroke.under_nil] using hk
  | case2 name numeral body π ih =>
      rw [strokes]
      refine List.mem_cons_of_mem _ (List.mem_map.mpr ⟨_, ih h, ?_⟩)
      simp [Stroke.under_under, column, Address.depth, Nat.add_comm]
  | case3 f a π ih =>
      rw [strokes]
      refine List.mem_append_left _ (List.mem_append_right _ (List.mem_map.mpr ⟨_, ih h, ?_⟩))
      simp [Stroke.under_under, column, Address.depth]
  | case4 f a π ih =>
      rw [strokes]
      refine List.mem_append_right _ (List.mem_map.mpr ⟨_, ih h, ?_⟩)
      simp [Stroke.under_under, column, Address.depth]
  | case5 => cases h

/-- The strokes below a turn have nodes below that turn, and at most one in a role there if that is
so for the term that stands there. -/
theorem keys_under {l : List Stroke} (hl : (l.map Stroke.key).Nodup) (turn : Turn)
    (columns rows : Nat) :
    ((l.map (·.under [turn] columns rows)).map Stroke.key).Nodup ∧
      ∀ x ∈ (l.map (·.under [turn] columns rows)).map Stroke.key, x.1.head? = some turn := by
  have hkeys : (l.map (·.under [turn] columns rows)).map Stroke.key =
      (l.map Stroke.key).map fun x => (turn :: x.1, x.2) := by
    simp [Stroke.key, Stroke.under, Function.comp_def]
  rw [hkeys]
  constructor
  · refine List.Pairwise.map _ ?_ hl
    rintro ⟨π, role⟩ ⟨π', role'⟩ hne heq
    cases heq
    exact hne rfl
  · intro x hx
    obtain ⟨y, -, rfl⟩ := List.mem_map.mp hx
    rfl

/-- **One line in a role.**  A node has at most one stroke in a role. -/
theorem nodup_strokes (t : Term) : (t.strokes.map Stroke.key).Nodup := by
  induction t using Term.induction with
  | var name index free => cases index <;> simp [strokes]
  | lam name numeral body ih =>
      obtain ⟨hnodup, hbody⟩ := keys_under ih .body 0 1
      rw [strokes, List.map_cons, List.nodup_cons]
      refine ⟨fun hmem => ?_, hnodup⟩
      cases hbody _ hmem
  | app f a ihf iha =>
      -- The three parts are told apart by the first turn to their nodes.
      obtain ⟨hf, hfunc⟩ := keys_under ihf .func 0 0
      obtain ⟨ha, harg⟩ := keys_under iha .arg f.width 0
      have hown := Stroke.keys_ofApplication f.width f.stem a.stem (max f.height a.height)
      have hhere : ∀ x ∈ (Stroke.ofApplication f.width f.stem a.stem
          (max f.height a.height)).map Stroke.key, x.1.head? = none := by
        intro x hx
        obtain ⟨k, hk, rfl⟩ := List.mem_map.mp hx
        exact congrArg List.head? (Stroke.node_of_mem_ofApplication hk)
      rw [strokes, List.map_append, List.map_append, List.append_assoc, List.nodup_append,
        List.nodup_append]
      refine ⟨hown.nodup (by decide), ⟨hf, ha, ?_⟩, ?_⟩
      · rintro x hx _ hy rfl
        cases (hfunc x hx).symm.trans (harg x hy)
      · rintro x hx _ hy rfl
        rcases List.mem_append.mp hy with hy | hy
        · cases (hhere x hx).symm.trans (hfunc x hy)
        · cases (hhere x hx).symm.trans (harg x hy)

end Term

end Tromp
