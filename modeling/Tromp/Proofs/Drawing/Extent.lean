import Tromp.Proofs.Drawing.Scale
import Tromp.Proofs.Drawing.Strokes

/-!
# Where the strokes of a term can be

The strokes of a term keep to its columns and rows.  The line of a variable goes up, bars are level
and fillers go down.  Two rows matter beside the first one:

* no bar stands below the *stem*, the row where the leftmost line of the term ends;
* whatever is level or goes down ends above the last row, so the bar that joins the term to another
  one, which stands in that row or below, is lower than all of it.

`Stroke.Fits` collects these bounds, and `Term.fits_of_mem_strokes` establishes them.  Within them
every stroke has its place: by `Term.exists_of_mem_strokes` it is one that the term at its node adds
to those of its parts, moved to where that term stands.
-/

namespace Tromp

namespace StrokeRole

/-- Whether a line is the bar of an abstraction or of an application. -/
def isBar : StrokeRole → Bool
  | abstraction | application => true
  | _ => false

/-- Whether a line brings an operand down to the bar of its application. -/
def isFiller : StrokeRole → Bool
  | functionFiller | argumentFiller => true
  | _ => false

theorem isBar_eq_false {role : StrokeRole} (h : role.isFiller) : role.isBar = false := by
  cases role with
  | functionFiller | argumentFiller => rfl
  | «variable» | abstraction | application => cases h

end StrokeRole

/-- The bounds of a stroke of a term. -/
structure Stroke.Fits (k : Stroke) (t : Term) : Prop where
  column_le : k.column1 ≤ k.column2
  column_lt : k.column2 < t.width
  row_nonneg : 0 ≤ k.row1
  of_variable : k.role = .variable → k.column2 = k.column1 ∧ k.row2 < k.row1 ∧ k.row1 ≤ t.height
  of_filler : k.role.isFiller → k.column2 = k.column1 ∧ k.row1 < k.row2 ∧ k.row2 < t.height
  of_bar : k.role.isBar → k.row2 = k.row1 ∧ k.row1 < t.height ∧ k.row1 ≤ t.stem

namespace Stroke

variable {k : Stroke} {t u : Term}

/-- What fits a term fits every term around it that leaves room for it. -/
theorem Fits.under (h : k.Fits t) (π : Address) {columns rows : Nat}
    (hwidth : columns + t.width ≤ u.width) (hheight : rows + t.height ≤ u.height)
    (hstem : rows + t.stem ≤ u.stem) : (k.under π columns rows).Fits u where
  column_le := Nat.add_le_add_left h.column_le columns
  column_lt := by
    have hlt := h.column_lt
    simp only [Stroke.under]
    omega
  row_nonneg := by
    have hrow := h.row_nonneg
    simp only [Stroke.under]
    omega
  of_variable := fun hrole => by
    obtain ⟨hcolumn, hup, hrow⟩ := h.of_variable hrole
    simp only [Stroke.under]
    omega
  of_filler := fun hrole => by
    obtain ⟨hcolumn, hdown, hrow⟩ := h.of_filler hrole
    simp only [Stroke.under]
    omega
  of_bar := fun hrole => by
    obtain ⟨hlevel, hrow, hbelow⟩ := h.of_bar hrole
    simp only [Stroke.under]
    omega

/-- All strokes but the bars stay in one column. -/
theorem Fits.column2_eq (h : k.Fits t) (hrole : k.role.isBar = false) : k.column2 = k.column1 := by
  cases hk : k.role with
  | «variable» => exact (h.of_variable hk).1
  | functionFiller | argumentFiller => exact (h.of_filler (by rw [hk]; rfl)).1
  | abstraction | application =>
      rw [hk] at hrole
      cases hrole

theorem under_node (k : Stroke) (π : Address) (columns rows : Nat) :
    (k.under π columns rows).node = π ++ k.node := rfl

/-- What stands below a node stands below it seen from one turn above. -/
theorem under_cons {own below : Stroke} {π : Address} {column depth : Nat}
    (h : own.under π column depth = below) (turn : Turn) (columns rows : Nat) :
    own.under (turn :: π) (columns + column) (rows + depth) = below.under [turn] columns rows := by
  rw [← h, under_under]
  rfl

theorem mem_filler_iff {role : StrokeRole} {column stem row : Nat} :
    k ∈ filler role column stem row ↔ stem < row ∧ k =
      { node := [], role, column1 := column, row1 := stem, column2 := column, row2 := row } := by
  unfold filler
  split <;> simp_all

/-- The bar of an application, from its first column to that of the argument. -/
def joint (columns row : Nat) : Stroke :=
  { node := [], role := .application, column1 := 0, row1 := row, column2 := columns, row2 := row }

theorem mem_ofApplication_iff {columns functionStem argumentStem row : Nat} :
    k ∈ ofApplication columns functionStem argumentStem row ↔
      k ∈ filler .functionFiller 0 functionStem row ∨
      k ∈ filler .argumentFiller columns argumentStem row ∨ k = joint columns row := by
  simp [ofApplication, joint]

theorem joint_mem_ofApplication (columns functionStem argumentStem row : Nat) :
    joint columns row ∈ ofApplication columns functionStem argumentStem row :=
  mem_ofApplication_iff.mpr (.inr (.inr rfl))

/-- The fillers of an application end on its bar, one at each end. -/
theorem ends_of_mem_ofApplication {columns functionStem argumentStem row : Nat}
    (h : k ∈ ofApplication columns functionStem argumentStem row) (hrole : k.role.isFiller) :
    k.row2 = row ∧ (k.role = .functionFiller → k.column2 = 0) ∧
      (k.role = .argumentFiller → k.column2 = columns) := by
  rcases mem_ofApplication_iff.mp h with hfiller | hfiller | rfl
  · obtain ⟨-, rfl⟩ := mem_filler_iff.mp hfiller
    exact ⟨rfl, fun _ => rfl, nofun⟩
  · obtain ⟨-, rfl⟩ := mem_filler_iff.mp hfiller
    exact ⟨rfl, nofun, fun _ => rfl⟩
  · cases hrole

/-- The strokes of an application are its fillers and its bar. -/
theorem role_of_mem_ofApplication {columns functionStem argumentStem row : Nat}
    (h : k ∈ ofApplication columns functionStem argumentStem row) :
    k.role ∈ [StrokeRole.functionFiller, .argumentFiller, .application] := by
  have hkey := (keys_ofApplication ..).subset (List.mem_map_of_mem h)
  exact List.mem_map_of_mem (f := Prod.snd) hkey

end Stroke

namespace Term

variable {name : Option String} {numeral : Option Int} {body f a : Term} {k : Stroke}

theorem mem_strokes_lam :
    k ∈ strokes (.lam name numeral body) ↔
      k = .ofAbstraction body.width ∨ ∃ below ∈ body.strokes, below.under [.body] 0 1 = k := by
  simp [strokes]

theorem mem_strokes_app :
    k ∈ strokes (.app f a) ↔
      k ∈ Stroke.ofApplication f.width f.stem a.stem (max f.height a.height) ∨
      (∃ below ∈ f.strokes, below.under [.func] 0 0 = k) ∨
      ∃ below ∈ a.strokes, below.under [.arg] f.width 0 = k := by
  simp [strokes]

/-- The strokes that a term adds to those of its parts. -/
def ownStrokes : Term → List Stroke
  | .var _ none _ => []
  | .var _ (some i) _ => [.ofVariable i]
  | .lam _ _ body => [.ofAbstraction (width body)]
  | .app f a => Stroke.ofApplication (width f) (stem f) (stem a) (max (height f) (height a))

/-- **Every stroke belongs to a node.**  It is one that the term at its node adds, moved to where
that term stands. -/
theorem exists_of_mem_strokes {t : Term} (h : k ∈ t.strokes) :
    ∃ u, t.at? k.node = some u ∧
      ∃ own ∈ u.ownStrokes, own.under k.node (t.column k.node) k.node.depth = k := by
  induction t using Term.induction generalizing k with
  | var name index free =>
      cases index with
      | none => cases h
      | some i =>
          obtain rfl := List.mem_singleton.mp h
          exact ⟨_, rfl, _, List.mem_singleton_self _, Stroke.under_nil _⟩
  | lam name numeral body ih =>
      rcases mem_strokes_lam.mp h with rfl | ⟨below, hbelow, rfl⟩
      · exact ⟨_, rfl, _, List.mem_singleton_self _, Stroke.under_nil _⟩
      · obtain ⟨u, hu, own, hown, heq⟩ := ih hbelow
        have hmoved := Stroke.under_cons heq .body 0 1
        refine ⟨u, hu, own, hown, ?_⟩
        simpa [Stroke.under_node, column, Address.depth, Nat.add_comm] using hmoved
  | app f a ihf iha =>
      rcases mem_strokes_app.mp h with h | ⟨below, hbelow, rfl⟩ | ⟨below, hbelow, rfl⟩
      · have hnode := Stroke.node_of_mem_ofApplication h
        rw [hnode]
        exact ⟨_, rfl, k, h, Stroke.under_nil k⟩
      · obtain ⟨u, hu, own, hown, heq⟩ := ihf hbelow
        have hmoved := Stroke.under_cons heq .func 0 0
        refine ⟨u, hu, own, hown, ?_⟩
        simpa [Stroke.under_node, column, Address.depth] using hmoved
      · obtain ⟨u, hu, own, hown, heq⟩ := iha hbelow
        have hmoved := Stroke.under_cons heq .arg f.width 0
        refine ⟨u, hu, own, hown, ?_⟩
        simpa [Stroke.under_node, column, Address.depth] using hmoved

theorem mem_ownStrokes_iff {u : Term} {own : Stroke} :
    own ∈ u.ownStrokes ↔
      (∃ name i free, u = .var name (some i) free ∧ own = .ofVariable i) ∨
      (∃ name numeral body, u = .lam name numeral body ∧ own = .ofAbstraction (width body)) ∨
      ∃ f a, u = .app f a ∧
        own ∈ Stroke.ofApplication (width f) (stem f) (stem a) (max (height f) (height a)) := by
  cases u with
  | foreign e => exact e.elim
  | var name index free => cases index <;> simp [ownStrokes]
  | lam | app => simp [ownStrokes]

/-- The line of a variable is that of the variable at its node. -/
theorem exists_var_of_mem_strokes {t : Term} (h : k ∈ t.strokes) (hrole : k.role = .variable) :
    ∃ name i free, t.at? k.node = some (.var name (some i) free) ∧
      (Stroke.ofVariable i).under k.node (t.column k.node) k.node.depth = k := by
  obtain ⟨u, hu, own, hown, heq⟩ := exists_of_mem_strokes h
  have hrole' : own.role = .variable := by rw [← hrole, ← heq]; rfl
  rcases mem_ownStrokes_iff.mp hown with ⟨name, i, free, rfl, rfl⟩ |
    ⟨name, numeral, body, rfl, rfl⟩ | ⟨f, a, rfl, hmem⟩
  · exact ⟨name, i, free, hu, heq⟩
  · cases hrole'
  · simpa [hrole'] using Stroke.role_of_mem_ofApplication hmem

/-- The bar of an abstraction is that of the abstraction at its node. -/
theorem exists_lam_of_mem_strokes {t : Term} (h : k ∈ t.strokes) (hrole : k.role = .abstraction) :
    ∃ name numeral body, t.at? k.node = some (.lam name numeral body) ∧
      (Stroke.ofAbstraction (width body)).under k.node (t.column k.node) k.node.depth = k := by
  obtain ⟨u, hu, own, hown, heq⟩ := exists_of_mem_strokes h
  have hrole' : own.role = .abstraction := by rw [← hrole, ← heq]; rfl
  rcases mem_ownStrokes_iff.mp hown with ⟨name, i, free, rfl, rfl⟩ |
    ⟨name, numeral, body, rfl, rfl⟩ | ⟨f, a, rfl, hmem⟩
  · cases hrole'
  · exact ⟨name, numeral, body, hu, heq⟩
  · simpa [hrole'] using Stroke.role_of_mem_ofApplication hmem

/-- A filler ends on the bar of the application at its node: that of the function at the left end,
and that of the argument at the right end. -/
theorem exists_bar_of_mem_strokes {t : Term} (h : k ∈ t.strokes) (hrole : k.role.isFiller) :
    ∃ f a, t.at? k.node = some (.app f a) ∧
      ∃ bar ∈ t.strokes, bar.node = k.node ∧ bar.role = .application ∧ bar.row1 = bar.row2 ∧
        k.row2 = bar.row2 ∧ (k.role = .functionFiller → k.column2 = bar.column1) ∧
        (k.role = .argumentFiller → k.column2 = bar.column2) := by
  obtain ⟨u, hu, own, hown, heq⟩ := exists_of_mem_strokes h
  have hrole' : own.role.isFiller := by rw [← heq] at hrole; exact hrole
  rcases mem_ownStrokes_iff.mp hown with ⟨name, i, free, rfl, rfl⟩ |
    ⟨name, numeral, body, rfl, rfl⟩ | ⟨f, a, rfl, hmem⟩
  · cases hrole'
  · cases hrole'
  · have hbar := strokes_at? hu (List.mem_append_left _ (List.mem_append_left _
      (Stroke.joint_mem_ofApplication (width f) (stem f) (stem a) (max (height f) (height a)))))
    refine ⟨f, a, hu, _, hbar, List.append_nil _, rfl, rfl, ?_⟩
    obtain ⟨hrow, hfunc, harg⟩ := Stroke.ends_of_mem_ofApplication hmem hrole'
    have hrow' := congrArg Stroke.row2 heq
    have hcolumn' := congrArg Stroke.column2 heq
    have hrole'' := congrArg Stroke.role heq
    simp only [Stroke.under] at hrow' hcolumn' hrole''
    simp only [Stroke.under, Stroke.joint, ← hrow', ← hcolumn', ← hrole'', hrow]
    exact ⟨trivial, fun h => by rw [hfunc h], fun h => by rw [harg h]⟩

theorem stem_le_height (t : Term) : t.stem ≤ t.height := by
  induction t using Term.induction with
  | var name index free => exact Nat.le_refl 0
  | lam name numeral body ih => exact Nat.succ_le_succ ih
  | app f a ihf iha => exact Nat.le_succ _

theorem fits_ofVariable (name : Option String) (i : Nat) (free : Bool) :
    (Stroke.ofVariable i).Fits (.var name (some i) free) where
  column_le := Nat.le_refl 0
  column_lt := Nat.one_pos
  row_nonneg := Int.le_refl 0
  of_variable := fun _ => ⟨rfl, by simp only [Stroke.ofVariable]; omega, Int.le_refl 0⟩
  of_filler := fun hrole => by cases hrole
  of_bar := fun hrole => by cases hrole

theorem fits_ofAbstraction (name : Option String) (numeral : Option Int) (body : Term) :
    (Stroke.ofAbstraction body.width).Fits (.lam name numeral body) where
  column_le := Nat.zero_le _
  column_lt := Nat.sub_lt body.width_pos Nat.one_pos
  row_nonneg := Int.le_refl 0
  of_variable := fun hrole => by cases hrole
  of_filler := fun hrole => by cases hrole
  of_bar := fun _ => ⟨rfl, by simp only [Stroke.ofAbstraction, height]; omega, Int.natCast_nonneg _⟩

/-- A filler of an application ends on its bar, above the row that the application adds. -/
theorem fits_of_mem_filler {role : StrokeRole} {column stem : Nat} (hrole : role.isFiller)
    (hcolumn : column < f.width + a.width)
    (h : k ∈ Stroke.filler role column stem (max f.height a.height)) : k.Fits (.app f a) := by
  obtain ⟨hstem, rfl⟩ := Stroke.mem_filler_iff.mp h
  constructor
  case column_le => exact Nat.le_refl _
  case column_lt => exact hcolumn
  case row_nonneg => exact Int.natCast_nonneg _
  case of_variable => rintro rfl; cases hrole
  case of_filler =>
    intro _
    exact ⟨rfl, Int.ofNat_lt.mpr hstem, Int.ofNat_lt.mpr (Nat.lt_succ_self _)⟩
  case of_bar => intro hbar; cases role <;> cases hrole <;> cases hbar

/-- **Strokes keep to their term.** -/
theorem fits_of_mem_strokes {t : Term} (h : k ∈ t.strokes) : k.Fits t := by
  induction t using Term.induction generalizing k with
  | var name index free =>
      cases index with
      | none => cases h
      | some i =>
          obtain rfl := List.mem_singleton.mp h
          exact fits_ofVariable name i free
  | lam name numeral body ih =>
      rcases mem_strokes_lam.mp h with rfl | ⟨below, hbelow, rfl⟩
      · exact fits_ofAbstraction name numeral body
      · refine (ih hbelow).under _ ?_ ?_ ?_ <;> simp only [width, height, stem] <;> omega
  | app f a ihf iha =>
      have hwidthf := f.width_pos
      have hwidtha := a.width_pos
      have hstemf := f.stem_le_height
      have hstema := a.stem_le_height
      rcases mem_strokes_app.mp h with h | ⟨below, hbelow, rfl⟩ | ⟨below, hbelow, rfl⟩
      · rcases Stroke.mem_ofApplication_iff.mp h with h | h | rfl
        · exact fits_of_mem_filler rfl (by omega) h
        · exact fits_of_mem_filler rfl (by omega) h
        · constructor
          case column_le => exact Nat.zero_le _
          case column_lt => simp only [Stroke.joint, width]; omega
          case row_nonneg => exact Int.natCast_nonneg _
          case of_variable => rintro ⟨⟩
          case of_filler => rintro ⟨⟩
          case of_bar =>
            intro _
            exact ⟨rfl, Int.ofNat_lt.mpr (Nat.lt_succ_self _), Int.le_refl _⟩
      · refine (ihf hbelow).under _ ?_ ?_ ?_ <;> simp only [width, height, stem] <;> omega
      · refine (iha hbelow).under _ ?_ ?_ ?_ <;> simp only [width, height, stem] <;> omega

end Term

end Tromp
