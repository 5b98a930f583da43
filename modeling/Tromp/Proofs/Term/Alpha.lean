import Tromp.Proofs.Term.Names
import Tromp.Proofs.Term.Resolution

/-!
# Resolution and renaming

Two terms are *alpha-equivalent* when one becomes the other by changes of bound variables: a part
`λx.M` may be replaced by `λy.M'`, where `M'` is `M` with `y` for every free `x`, as long as `y` does
not occur in `M` at all.  The integer literals that abstractions stand for do not count, nor do
indices, which resolution looks at as little as renaming does.

Resolution sees through such changes, and through nothing else.  `Term.bindingForm` is what is left
of a resolved term without the names of its bound variables, and by
`Term.bindingForm_resolve_eq_iff` two named terms have one binding form after resolution exactly
when they are alpha-equivalent.

1.  `Term.bindingForm_resolveIn_rename`: a change of a bound variable keeps the binding form.
2.  Conversely, two abstractions of one binding form are brought to one new name for their variable,
    and their bodies then have one binding form in one scope, so that the induction is on the size
    of a term and for all scopes at once.
-/

namespace Tromp

/-- Changes of bound variables. -/
inductive AlphaEquiv : Term → Term → Prop where
  /-- A variable is given by its name alone. -/
  | var (name : Option String) (index index' : Option Nat) (free free' : Bool) :
      AlphaEquiv (.var name index free) (.var name index' free')
  | lam (name : Option String) (numeral numeral' : Option Int) {body body' : Term} :
      AlphaEquiv body body' → AlphaEquiv (.lam name numeral body) (.lam name numeral' body')
  | app {f f' a a' : Term} :
      AlphaEquiv f f' → AlphaEquiv a a' → AlphaEquiv (.app f a) (.app f' a')
  /-- A bound variable takes a name that does not occur below its binder. -/
  | rename (x y : String) (numeral : Option Int) (body : Term) : some y ∉ body.names →
      AlphaEquiv (.lam (some x) numeral body) (.lam (some y) numeral (body.rename x y))
  | symm {t u : Term} : AlphaEquiv t u → AlphaEquiv u t
  | trans {t u v : Term} : AlphaEquiv t u → AlphaEquiv u v → AlphaEquiv t v

namespace Term

/-- A term without the names of its bound variables, and without tags: what is left is its shape,
the index and the mark of every variable, and the names of those that are marked free. -/
def bindingForm : Term → Term
  | .var name index free => .var (if free then name else none) index free
  | .lam _ _ body => .lam none none (bindingForm body)
  | .app f a => .app (bindingForm f) (bindingForm a)

/-! ### Names in two scopes -/

/-- A name means in one scope what another name means in another scope: both are bound at the same
place, or they are one name that is bound in neither. -/
def SameBinding (scope scope' : List (Option String)) (x y : String) : Prop :=
  bindingPlace? scope (some x) = bindingPlace? scope' (some y) ∧
    (bindingPlace? scope (some x) = none → x = y)

theorem SameBinding.refl (scope : List (Option String)) (x : String) :
    SameBinding scope scope x x := ⟨rfl, fun _ => rfl⟩

/-- Two names mean the same below two more abstractions when these bind both of them or neither. -/
theorem SameBinding.cons {scope scope' : List (Option String)} {binder binder' : Option String}
    {x y : String} (hbound : binder = some x ↔ binder' = some y)
    (h : binder ≠ some x → SameBinding scope scope' x y) :
    SameBinding (binder :: scope) (binder' :: scope') x y := by
  rw [SameBinding, bindingPlace?_cons, bindingPlace?_cons]
  by_cases hx : binder = some x
  · simp [hx, hbound.mp hx]
  · obtain ⟨hplace, hfree⟩ := h hx
    have hy : binder' ≠ some y := fun hy => hx (hbound.mpr hy)
    simpa [hx, hy, hplace] using fun hnone => hfree (hplace.trans hnone)

/-- One name means the same below one more abstraction in both scopes. -/
theorem SameBinding.under {scope scope' : List (Option String)} {x : String}
    (binder : Option String) (h : binder ≠ some x → SameBinding scope scope' x x) :
    SameBinding (binder :: scope) (binder :: scope') x x := .cons Iff.rfl h

/-- In one scope a place belongs to one name. -/
theorem SameBinding.eq {scope : List (Option String)} {x y : String}
    (h : SameBinding scope scope x y) : x = y := by
  obtain ⟨hplace, hfree⟩ := h
  cases hx : bindingPlace? scope (some x) with
  | none => exact hfree hx
  | some i =>
      obtain ⟨-, hget, -⟩ := bindingPlace?_eq_some_iff.mp hx
      obtain ⟨-, hget', -⟩ := bindingPlace?_eq_some_iff.mp (hplace.symm.trans hx)
      exact Option.some.inj (Option.some.inj (hget.symm.trans hget'))

/-- **Variables** have one binding form in two scopes when their names mean the same there. -/
theorem bindingForm_resolveIn_var_iff {scope scope' : List (Option String)} {x y : String}
    {index index' : Option Nat} {free free' : Bool} :
    (resolveIn scope (.var (some x) index free)).bindingForm =
        (resolveIn scope' (.var (some y) index' free')).bindingForm ↔
      SameBinding scope scope' x y := by
  rw [resolveIn_var, resolveIn_var, SameBinding]
  cases bindingPlace? scope (some x) with
  | none => cases bindingPlace? scope' (some y) <;> simp [bindingForm]
  | some i => cases bindingPlace? scope' (some y) <;> simp [bindingForm]

/-- A variable without a name is bound nowhere. -/
theorem resolveIn_var_none (scope : List (Option String)) (index : Option Nat) (free : Bool) :
    resolveIn scope (.var none index free) = .var none (some 0) true := by
  rw [resolveIn_var]
  rfl

/-! ### Renaming keeps the binding form -/

/-- Only the meaning of the names of a term decides its binding form. -/
theorem bindingForm_resolveIn_congr {t : Term} {scope scope' : List (Option String)}
    (h : ∀ x, some x ∈ t.names → SameBinding scope scope' x x) :
    (t.resolveIn scope).bindingForm = (t.resolveIn scope').bindingForm := by
  induction t using Term.induction generalizing scope scope' with
  | var name index free =>
      cases name with
      | none => rw [resolveIn_var_none, resolveIn_var_none]
      | some x => exact bindingForm_resolveIn_var_iff.mpr (h x (List.mem_singleton_self _))
  | lam name numeral body ih =>
      have hbody : ∀ x, some x ∈ body.names → SameBinding (name :: scope) (name :: scope') x x :=
        fun x hx => .under name fun _ => h x (List.mem_cons_of_mem _ hx)
      rw [resolveIn_lam, resolveIn_lam, bindingForm, bindingForm, ih hbody]
  | app f a ihf iha =>
      rw [resolveIn_app, resolveIn_app, bindingForm, bindingForm,
        ihf fun x hx => h x (List.mem_append_left _ hx),
        iha fun x hx => h x (List.mem_append_right _ hx)]

/-- **A change of a bound variable** keeps the binding form, in scopes where `y` means what `x`
meant before, and all other names mean what they meant. -/
theorem bindingForm_resolveIn_rename {t : Term} {x y : String} (hy : some y ∉ t.names)
    {scope scope' : List (Option String)}
    (h : ∀ z ≠ y, SameBinding scope scope' z (renameName x y z)) :
    (t.resolveIn scope).bindingForm = ((t.rename x y).resolveIn scope').bindingForm := by
  induction t using Term.induction generalizing scope scope' with
  | var name index free =>
      cases name with
      | none => rw [rename, Option.map_none, resolveIn_var_none, resolveIn_var_none]
      | some z =>
          have hz : z ≠ y := by
            rintro rfl
            exact hy (List.mem_singleton_self _)
          exact bindingForm_resolveIn_var_iff.mpr (h z hz)
  | lam name numeral body ih =>
      have hname : name ≠ some y := fun heq => hy (heq ▸ List.mem_cons_self)
      have hbody : some y ∉ body.names := fun hmem => hy (List.mem_cons_of_mem _ hmem)
      rw [rename, resolveIn_lam, resolveIn_lam, bindingForm, bindingForm]
      by_cases hx : name = some x
      · -- Below a binder of `x` nothing is renamed.
        have hsame : ∀ z, some z ∈ body.names →
            SameBinding (name :: scope) (name :: scope') z z := by
          intro z hz
          refine .under name fun hne => ?_
          have hzx : z ≠ x := by
            rintro rfl
            exact hne hx
          have hzy : z ≠ y := by
            rintro rfl
            exact hbody hz
          simpa [renameName, hzx] using h z hzy
        rw [if_pos hx, bindingForm_resolveIn_congr hsame]
      · have hunder : ∀ z ≠ y,
            SameBinding (name :: scope) (name :: scope') z (renameName x y z) := by
          intro z hz
          refine .cons ?_ fun _ => h z hz
          by_cases hzx : z = x
          · subst hzx
            simp [renameName, hx, hname]
          · simp [renameName, hzx]
        rw [if_neg hx, ih hbody hunder]
  | app f a ihf iha =>
      have hf : some y ∉ f.names := fun hmem => hy (List.mem_append_left _ hmem)
      have ha : some y ∉ a.names := fun hmem => hy (List.mem_append_right _ hmem)
      rw [rename, resolveIn_app, resolveIn_app, bindingForm, bindingForm, ihf hf h, iha ha h]

/-- The variable of an abstraction takes a new name. -/
theorem bindingForm_resolveIn_cons_rename {body : Term} {x y : String} (hy : some y ∉ body.names)
    (scope : List (Option String)) :
    (body.resolveIn (some x :: scope)).bindingForm =
      ((body.rename x y).resolveIn (some y :: scope)).bindingForm := by
  refine bindingForm_resolveIn_rename hy fun z hz => .cons ?_ fun hne => ?_
  · by_cases hzx : z = x
    · simp [renameName, hzx]
    · simp [renameName, hzx, Ne.symm hz, Ne.symm hzx]
  · have hzx : z ≠ x := by
      rintro rfl
      exact hne rfl
    simpa [renameName, hzx] using SameBinding.refl scope z

theorem bindingForm_resolveIn_of_alphaEquiv {t u : Term} (h : AlphaEquiv t u)
    (scope : List (Option String)) :
    (t.resolveIn scope).bindingForm = (u.resolveIn scope).bindingForm := by
  induction h generalizing scope with
  | var name index index' free free' => rw [resolveIn_var, resolveIn_var]
  | lam name numeral numeral' _ ih =>
      rw [resolveIn_lam, resolveIn_lam, bindingForm, bindingForm, ih]
  | app _ _ ihf iha =>
      rw [resolveIn_app, resolveIn_app, bindingForm, bindingForm, ihf, iha]
  | rename x y numeral body hy =>
      rw [resolveIn_lam, resolveIn_lam, bindingForm, bindingForm,
        bindingForm_resolveIn_cons_rename hy]
  | symm _ ih => exact (ih scope).symm
  | trans _ _ ih ih' => exact (ih scope).trans (ih' scope)

/-! ### One binding form, one term up to renaming -/

variable {scope scope' : List (Option String)} {name : Option String} {index : Option Nat}
  {free : Bool} {numeral : Option Int} {body f a t u : Term}

/-- What has the binding form of a variable is a variable. -/
theorem exists_var_of_bindingForm
    (h : (resolveIn scope (.var name index free)).bindingForm =
      (resolveIn scope' u).bindingForm) :
    ∃ name' index' free', u = .var name' index' free' := by
  obtain ⟨i, free', hvar⟩ := exists_resolveIn_var scope name index free
  cases u with
  | foreign e => exact e.elim
  | var name' index' free' => exact ⟨name', index', free', rfl⟩
  | lam | app =>
      rw [hvar] at h
      cases h

/-- What has the binding form of an abstraction is one, with the binding form of its body. -/
theorem exists_lam_of_bindingForm
    (h : (resolveIn scope (.lam name numeral body)).bindingForm =
      (resolveIn scope' u).bindingForm) :
    ∃ name' numeral' body', u = .lam name' numeral' body' ∧
      (resolveIn (name :: scope) body).bindingForm =
        (resolveIn (name' :: scope') body').bindingForm := by
  cases u with
  | foreign e => exact e.elim
  | var name' index' free' =>
      obtain ⟨i, free'', hvar⟩ := exists_resolveIn_var scope' name' index' free'
      rw [hvar] at h
      cases h
  | lam name' numeral' body' => exact ⟨name', numeral', body', rfl, (Tree.lam.inj h).2.2⟩
  | app => cases h

/-- What has the binding form of an application is one, with the binding forms of its operands. -/
theorem exists_app_of_bindingForm
    (h : (resolveIn scope (.app f a)).bindingForm = (resolveIn scope' u).bindingForm) :
    ∃ f' a', u = .app f' a' ∧ (resolveIn scope f).bindingForm = (resolveIn scope' f').bindingForm ∧
      (resolveIn scope a).bindingForm = (resolveIn scope' a').bindingForm := by
  cases u with
  | foreign e => exact e.elim
  | var name' index' free' =>
      obtain ⟨i, free'', hvar⟩ := exists_resolveIn_var scope' name' index' free'
      rw [hvar] at h
      cases h
  | lam => cases h
  | app f' a' =>
      obtain ⟨hfunc, harg⟩ := Tree.app.inj h
      exact ⟨f', a', rfl, hfunc, harg⟩

/-- Two abstractions are alpha-equivalent when their bodies are, once both variables have one new
name. -/
theorem alphaEquiv_lam_of_rename {x x' z : String} {numeral numeral' : Option Int}
    {body body' : Term} (hz : some z ∉ body.names) (hz' : some z ∉ body'.names)
    (h : AlphaEquiv (body.rename x z) (body'.rename x' z)) :
    AlphaEquiv (.lam (some x) numeral body) (.lam (some x') numeral' body') := by
  have hfirst := AlphaEquiv.rename x z numeral body hz
  have hbodies := AlphaEquiv.lam (some z) numeral numeral' h
  have hsecond := AlphaEquiv.rename x' z numeral' body' hz'
  exact hfirst.trans (hbodies.trans hsecond.symm)

/-- **One binding form, one term up to renaming.**  By induction on the size of a term, in every
scope: the bodies of two abstractions are compared below one new binder. -/
theorem alphaEquiv_of_bindingForm_resolveIn (ht : t.IsNamed) (hu : u.IsNamed)
    (h : (t.resolveIn scope).bindingForm = (u.resolveIn scope).bindingForm) : AlphaEquiv t u := by
  induction hn : t.size using Nat.strongRecOn generalizing t u scope with
  | ind n ih =>
      cases t with
      | foreign e => exact e.elim
      | var name index free =>
          obtain ⟨name', index', free', rfl⟩ := exists_var_of_bindingForm h
          obtain ⟨x, rfl⟩ := isNamed_var.mp ht
          obtain ⟨y, rfl⟩ := isNamed_var.mp hu
          obtain rfl := (bindingForm_resolveIn_var_iff.mp h).eq
          exact .var _ _ _ _ _
      | lam name numeral body =>
          obtain ⟨name', numeral', body', rfl, hforms⟩ := exists_lam_of_bindingForm h
          obtain ⟨⟨x, rfl⟩, hbody⟩ := isNamed_lam.mp ht
          obtain ⟨⟨x', rfl⟩, hbody'⟩ := isNamed_lam.mp hu
          obtain ⟨z, hz, hz'⟩ := exists_fresh body body'
          rw [bindingForm_resolveIn_cons_rename hz, bindingForm_resolveIn_cons_rename hz']
            at hforms
          have hsmaller : (rename x z body).size < n := by
            rw [size_rename, ← hn, size]
            omega
          have hbodies := ih _ hsmaller (hbody.rename x z) (hbody'.rename x' z) hforms rfl
          exact alphaEquiv_lam_of_rename hz hz' hbodies
      | app f a =>
          obtain ⟨f', a', rfl, hfunc, harg⟩ := exists_app_of_bindingForm h
          obtain ⟨hf, ha⟩ := isNamed_app.mp ht
          obtain ⟨hf', ha'⟩ := isNamed_app.mp hu
          have hposf := size_pos f
          have hposa := size_pos a
          have hsizef : size f < n := by
            rw [← hn, size]
            omega
          have hsizea : size a < n := by
            rw [← hn, size]
            omega
          exact .app (ih _ hsizef hf hf' hfunc rfl) (ih _ hsizea ha ha' harg rfl)

/-- **Resolution captures renaming.**  Two terms whose binders and variables all have names are
resolved to the same structure, with the same indices, the same free variables and the same names
for these, exactly when they are alpha-equivalent. -/
theorem bindingForm_resolve_eq_iff (ht : t.IsNamed) (hu : u.IsNamed) :
    t.resolve.bindingForm = u.resolve.bindingForm ↔ AlphaEquiv t u := by
  rw [resolve_eq_resolveIn, resolve_eq_resolveIn]
  constructor
  · exact alphaEquiv_of_bindingForm_resolveIn ht hu
  · intro h
    exact bindingForm_resolveIn_of_alphaEquiv h []

/-- A bound variable that hides another one of its name, beside a free variable. -/
theorem alphaEquiv_hidden :
    let x : Term := .var (some "x") none false
    let y : Term := .var (some "y") none false
    let w : Term := .var (some "w") none false
    let t : Term := .lam (some "x") none (.app x (.lam (some "x") none (.app x y)))
    let u : Term := .lam (some "w") none (.app w (.lam (some "x") none (.app x y)))
    t.IsNamed ∧ u.IsNamed ∧ t.resolve.bindingForm = u.resolve.bindingForm ∧ AlphaEquiv t u := by
  intro x y w t u
  have ht : t.IsNamed := by decide
  have hu : u.IsNamed := by decide
  have hforms : t.resolve.bindingForm = u.resolve.bindingForm := by decide
  exact ⟨ht, hu, hforms, (bindingForm_resolve_eq_iff ht hu).mp hforms⟩

end Term

end Tromp
