import Tromp.Proofs.Drawing.Extent
import Tromp.Proofs.Term.Occurrence

/-!
# The fillers of a column

Every column of a diagram has the line of one variable, and fillers that carry it on: a filler
begins in the row where the line ends so far and ends on the bar of its application.  So the fillers
of a column lead down, without gap or overlap, from the variable to the *foot* of the column.

1.  `Term.descends_of_at?`: the fillers of a column lead from its variable to its foot.
2.  `Term.foot_zero`: the foot of the first column is the stem of the term.
3.  `Term.foot_argument`: the foot of any other column is the row of the bar of the application
    whose argument begins in that column.

Strokes are drawn from the outermost bar inwards, so the fillers of a column are met downwards when
the order of drawing is reversed.
-/

namespace Tromp

/-- Steps that lead down from one height to another, each from where the one before it ends. -/
inductive Descends {α : Type} [LT α] : α → List (α × α) → α → Prop
  | nil (height : α) : Descends height [] height
  | cons {top height bottom : α} {rest : List (α × α)} (hlt : top < height)
      (tail : Descends height rest bottom) : Descends top ((top, height) :: rest) bottom

namespace Descends

variable {α β : Type} [LT α] [LT β] {top height bottom : α} {l l' : List (α × α)}

theorem append (h : Descends top l height) (h' : Descends height l' bottom) :
    Descends top (l ++ l') bottom := by
  induction h with
  | nil => exact h'
  | cons hlt tail ih => exact .cons hlt (ih h')

/-- Steps still lead down when all heights are changed in the same order. -/
theorem map {g : α → β} (hg : ∀ a b, a < b → g a < g b) (h : Descends top l bottom) :
    Descends (g top) (l.map (Prod.map g g)) (g bottom) := by
  induction h with
  | nil => exact .nil _
  | cons hlt tail ih => exact .cons (hg _ _ hlt) ih

end Descends

namespace Stroke

/-- The rows where a stroke begins and ends. -/
def rows (k : Stroke) : Int × Int := (k.row1, k.row2)

theorem map_rows_under (l : List Stroke) (π : Address) (columns below : Nat) :
    (l.map (·.under π columns below)).map rows =
      (l.map rows).map (Prod.map ((below : Int) + ·) ((below : Int) + ·)) := by
  simp [Function.comp_def, rows, under]

theorem map_rows_under_zero (l : List Stroke) (π : Address) (columns : Nat) :
    (l.map (·.under π columns 0)).map rows = l.map rows := by
  simp [Function.comp_def, rows, under]

/-- A filler leads from the row where a line ends to that of the bar, which is not above it. -/
theorem descends_filler (role : StrokeRole) (column : Nat) {stem row : Nat} (h : stem ≤ row) :
    Descends (stem : Int) ((filler role column stem row).map rows) row := by
  unfold filler
  split
  next hlt => exact .cons (Int.ofNat_lt.mpr hlt) (.nil _)
  next hge =>
      obtain rfl : stem = row := by omega
      exact .nil _

end Stroke

namespace Term

/-- The strokes of some roles that begin in a column, the last one drawn first. -/
def strokesIn (t : Term) (roles : StrokeRole → Bool) (column : Nat) : List Stroke :=
  (t.strokes.filter fun k => roles k.role && decide (k.column1 = column)).reverse

/-- The row where a column ends. -/
def foot : Term → Nat → Nat
  | .var .., _ => 0
  | .lam _ _ body, column => foot body column + 1
  | .app f a, column =>
    let row := max (height f) (height a)
    if column < width f then if column = 0 then row else foot f column
    else if column = width f then row else foot a (column - width f)

variable {t f a : Term} {roles : StrokeRole → Bool} {column : Nat}

theorem mem_strokesIn_iff {k : Stroke} :
    k ∈ t.strokesIn roles column ↔ k ∈ t.strokes ∧ roles k.role ∧ k.column1 = column := by
  simp [strokesIn]

/-! ### Feet -/

theorem foot_app_left (h : column < f.width) :
    foot (.app f a) column = if column = 0 then max f.height a.height else f.foot column := by
  simp [foot, h]

theorem foot_app_right (f a : Term) (column : Nat) :
    foot (.app f a) (f.width + column) =
      if column = 0 then max f.height a.height else a.foot column := by
  simp [foot]

/-- The first column ends at the stem. -/
theorem foot_zero (t : Term) : t.foot 0 = t.stem := by
  induction t using Term.induction with
  | var name index free => rfl
  | lam name numeral body ih => exact congrArg (· + 1) ih
  | app f a ihf iha => rw [foot_app_left f.width_pos, if_pos rfl, stem]

/-- The argument of an application begins right of its function. -/
theorem column_argument {ρ : Address} (h : t.at? ρ = some (.app f a)) :
    t.column (ρ ++ [.arg]) = t.column ρ + f.width := by
  rw [column_append h]
  simp [Term.column]

theorem column_argument_bounds {ρ : Address} (h : t.at? ρ = some (.app f a)) :
    0 < t.column (ρ ++ [.arg]) ∧ t.column (ρ ++ [.arg]) < t.width := by
  have hcolumn := column_argument h
  have hfits := column_add_width_le h
  have hf := f.width_pos
  have ha := a.width_pos
  rw [width] at hfits
  omega

/-- **The column of an argument ends on the bar of its application.** -/
theorem foot_argument {ρ : Address} (h : t.at? ρ = some (.app f a)) :
    t.foot (t.column (ρ ++ [.arg])) = ρ.depth + max f.height a.height := by
  fun_induction at? t ρ with
  | case1 t =>
      cases h
      simpa [Term.column, Address.depth] using foot_app_right f a 0
  | case2 name numeral body ρ ih =>
      have hbelow := ih h
      simp only [List.cons_append, Term.column, foot, hbelow, Address.depth]
      omega
  | case3 g b ρ ih =>
      obtain ⟨hpos, hlt⟩ := column_argument_bounds h
      rw [List.cons_append, Term.column, foot_app_left hlt, if_neg hpos.ne']
      exact ih h
  | case4 g b ρ ih =>
      obtain ⟨hpos, -⟩ := column_argument_bounds h
      rw [List.cons_append, Term.column, foot_app_right, if_neg hpos.ne']
      exact ih h
  | case5 => cases h

/-- The bar of an application ends at the foot of the column of its argument. -/
theorem exists_bar_of_at? {ρ : Address} (h : t.at? ρ = some (.app f a)) :
    ∃ bar ∈ t.strokes, bar.node = ρ ∧ bar.role = .application ∧
      bar.column2 = t.column (ρ ++ [.arg]) ∧ bar.row2 = t.foot (t.column (ρ ++ [.arg])) := by
  have hbar := strokes_at? h (List.mem_append_left _ (List.mem_append_left _
    (Stroke.joint_mem_ofApplication f.width f.stem a.stem (max f.height a.height))))
  refine ⟨_, hbar, List.append_nil ρ, rfl, ?_, ?_⟩
  · rw [column_argument h]
    rfl
  · rw [foot_argument h, Nat.cast_add]
    rfl

/-! ### Fillers -/

theorem strokesIn_lam {name : Option String} {numeral : Option Int} {body : Term}
    (hroles : roles .abstraction = false) (column : Nat) :
    strokesIn (.lam name numeral body) roles column =
      (body.strokesIn roles column).map (·.under [.body] 0 1) := by
  have hbar : roles (Stroke.ofAbstraction body.width).role = false := hroles
  simp [strokesIn, strokes, List.filter_map, Function.comp_def, Stroke.under, hbar]

/-- Of its own fillers an application has one in its first column, and one in that of the
argument. -/
theorem filter_ofApplication (columns functionStem argumentStem row column : Nat) :
    (Stroke.ofApplication columns functionStem argumentStem row).filter
        (fun k => k.role.isFiller && decide (k.column1 = column)) =
      (if column = 0 then Stroke.filler .functionFiller 0 functionStem row else []) ++
        if column = columns then Stroke.filler .argumentFiller columns argumentStem row
        else [] := by
  have hfiller : ∀ (role : StrokeRole) (start stem : Nat), role.isFiller →
      (Stroke.filler role start stem row).filter
          (fun k => k.role.isFiller && decide (k.column1 = column)) =
        if column = start then Stroke.filler role start stem row else [] := by
    intro role start stem hrole
    by_cases hcolumn : column = start
    · subst hcolumn
      unfold Stroke.filler
      split <;> simp [hrole]
    · have hother : start ≠ column := fun heq => hcolumn heq.symm
      unfold Stroke.filler
      split <;> simp [hother]
  rw [Stroke.ofApplication, List.filter_append, List.filter_append, hfiller _ _ _ rfl,
    hfiller _ _ _ rfl]
  simp [StrokeRole.isFiller]

theorem reverse_filler (role : StrokeRole) (column stem row : Nat) :
    (Stroke.filler role column stem row).reverse = Stroke.filler role column stem row := by
  unfold Stroke.filler
  split <;> rfl

/-- In a column of the function an application has the fillers of the function, and below them its
own if the column is the first one. -/
theorem fillersIn_app_left (h : column < f.width) :
    strokesIn (.app f a) StrokeRole.isFiller column =
      (f.strokesIn StrokeRole.isFiller column).map (·.under [.func] 0 0) ++
        if column = 0 then Stroke.filler .functionFiller 0 f.stem (max f.height a.height)
        else [] := by
  have hother : (a.strokes.map (·.under [.arg] f.width 0)).filter
      (fun k => k.role.isFiller && decide (k.column1 = column)) = [] := by
    refine List.filter_eq_nil_iff.mpr fun k hk hpass => ?_
    obtain ⟨below, -, rfl⟩ := List.mem_map.mp hk
    have hcolumn : f.width + below.column1 = column :=
      of_decide_eq_true (Bool.and_eq_true_iff.mp hpass).2
    omega
  have hne : column ≠ f.width := h.ne
  rw [strokesIn, strokes, List.filter_append, List.filter_append, hother, filter_ofApplication,
    if_neg hne, List.append_nil, List.append_nil, List.reverse_append, strokesIn, List.filter_map,
    List.map_reverse, apply_ite List.reverse, reverse_filler]
  simp [Function.comp_def, Stroke.under]

/-- In a column of the argument an application has the fillers of the argument, and below them its
own if the column is the first one of the argument. -/
theorem fillersIn_app_right (f a : Term) (column : Nat) :
    strokesIn (.app f a) StrokeRole.isFiller (f.width + column) =
      (a.strokesIn StrokeRole.isFiller column).map (·.under [.arg] f.width 0) ++
        if column = 0 then Stroke.filler .argumentFiller f.width a.stem (max f.height a.height)
        else [] := by
  have hother : (f.strokes.map (·.under [.func] 0 0)).filter
      (fun k => k.role.isFiller && decide (k.column1 = f.width + column)) = [] := by
    refine List.filter_eq_nil_iff.mpr fun k hk hpass => ?_
    obtain ⟨below, hbelow, rfl⟩ := List.mem_map.mp hk
    obtain ⟨hle, hlt, -⟩ := fits_of_mem_strokes hbelow
    have hcolumn : 0 + below.column1 = f.width + column :=
      of_decide_eq_true (Bool.and_eq_true_iff.mp hpass).2
    omega
  have hne : f.width + column ≠ 0 := by
    have hf := f.width_pos
    omega
  rw [strokesIn, strokes, List.filter_append, List.filter_append, hother, filter_ofApplication,
    if_neg hne, List.nil_append, List.append_nil, List.reverse_append, strokesIn, List.filter_map,
    List.map_reverse, apply_ite List.reverse, reverse_filler]
  simp [Function.comp_def, Stroke.under]

/-- A column of an operand, with what the application adds to it. -/
theorem descends_operand {l : List (Int × Int)} {top : Int} (role : StrokeRole) (start : Nat)
    {operand : Term} {row : Nat} (hrow : operand.height ≤ row)
    (h : Descends top l (operand.foot column)) :
    Descends top
      (l ++ (if column = 0 then Stroke.filler role start operand.stem row else []).map Stroke.rows)
      ((if column = 0 then row else operand.foot column : Nat) : Int) := by
  split
  next hzero =>
      subst hzero
      rw [foot_zero] at h
      exact h.append (Stroke.descends_filler role start (operand.stem_le_height.trans hrow))
  next => simpa using h

/-- **The fillers of a column lead down** from its variable to its foot. -/
theorem descends_of_at? {π : Address} {name : Option String} {index : Option Nat} {free : Bool}
    (h : t.at? π = some (.var name index free)) :
    Descends (π.depth : Int) ((t.strokesIn StrokeRole.isFiller (t.column π)).map Stroke.rows)
      (t.foot (t.column π)) := by
  fun_induction at? t π with
  | case1 t =>
      cases h
      cases index <;> exact .nil 0
  | case2 name' numeral body π ih =>
      have hbelow := (ih h).map (g := ((1 : Nat) + · : Int → Int)) fun a b hab => by omega
      rw [Term.column, strokesIn_lam rfl, Stroke.map_rows_under, foot, Address.depth]
      convert hbelow using 1 <;> push_cast <;> omega
  | case3 f a π ih =>
      have hlt : Term.column f π < width f :=
        column_add_width_le h
      have hown := descends_operand .functionFiller 0
        (Nat.le_max_left (height f) (height a)) (ih h)
      rw [Term.column, fillersIn_app_left hlt, foot_app_left hlt, List.map_append,
        Stroke.map_rows_under_zero, Address.depth]
      exact hown
  | case4 f a π ih =>
      have hown := descends_operand .argumentFiller (width f)
        (Nat.le_max_right (height f) (height a)) (ih h)
      rw [Term.column, fillersIn_app_right, foot_app_right, List.map_append,
        Stroke.map_rows_under_zero, Address.depth]
      exact hown
  | case5 => cases h

/-! ### Variables -/

/-- **One variable for each column.** -/
theorem variablesIn_column {π : Address} {name : Option String} {i : Nat} {free : Bool}
    (h : t.at? π = some (.var name (some i) free)) :
    t.strokesIn (fun role => role = .variable) (t.column π) =
      [(Stroke.ofVariable i).under π (t.column π) π.depth] := by
  have hmem := strokes_at? h (List.mem_singleton_self (Stroke.ofVariable i))
  have hnodup : (t.strokesIn (fun role => role = .variable) (t.column π)).Nodup :=
    List.nodup_reverse.mpr (t.nodup_strokes.of_map.filter _)
  have hperm := (List.perm_ext_iff_of_nodup hnodup (List.nodup_singleton
    ((Stroke.ofVariable i).under π (t.column π) π.depth))).mpr fun k => by
      rw [mem_strokesIn_iff, List.mem_singleton]
      constructor
      · rintro ⟨hk, hrole, hcolumn⟩
        obtain ⟨name', i', free', hvar, heq⟩ :=
          exists_var_of_mem_strokes hk (of_decide_eq_true hrole)
        have hnode : k.node = π :=
          eq_of_column_eq (mem_occurrences_iff.mpr ⟨_, _, _, hvar⟩)
            (mem_occurrences_iff.mpr ⟨_, _, _, h⟩) ((congrArg Stroke.column1 heq).trans hcolumn)
        rw [hnode] at hvar heq
        obtain ⟨-, hindex, -⟩ := Tree.var.inj (Option.some.inj (hvar.symm.trans h))
        rw [← heq, Option.some.inj hindex]
      · rintro rfl
        exact ⟨hmem, rfl, rfl⟩
  exact List.perm_singleton.mp hperm

end Term

end Tromp
