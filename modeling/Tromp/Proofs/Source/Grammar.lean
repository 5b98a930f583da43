import Tromp.Source.Parser

/-!
# The grammar of expressions

    expression  := abstraction | application
    abstraction := lambda name dot expression
    application := atom atom …
    atom        := name | ( expression )

A derivation is a value of one of the types `Expression`, `Atom` and `Atoms`: each rule of the
grammar is a constructor, and each terminal is a token of the kind the rule asks for.  The *word*
of a derivation is the row of tokens it derives, and its *term* is what these tokens mean.
Parentheses are in the word and leave nothing in the term.

The key fact is `Expression.word_append_inj`: where no atom can follow, a row of tokens splits in
one way only into the word of an expression and a rest, and only one derivation has that word.
In particular the grammar is unambiguous.
-/

namespace Tromp.Grammar

/-- A token of a kind. -/
abbrev Terminal (kind : TokenKind) := { token : Token // token.kind = kind }

mutual

/-- Derivations from `expression`. -/
inductive Expression where
  | abstraction (sign : Terminal .lambda) (name : Terminal .identifier) (mark : Terminal .dot)
      (body : Expression)
  | application (func : Atom) (args : Atoms)

/-- Derivations from `atom`. -/
inductive Atom where
  | name (token : Terminal .identifier)
  | group (left : Terminal .opening) (inner : Expression) (right : Terminal .closing)

/-- Derivations of any number of atoms. -/
inductive Atoms where
  | nil
  | cons (first : Atom) (rest : Atoms)

end

mutual

/-- The word of an expression: the tokens that it derives. -/
def Expression.word : Expression → List Token
  | .abstraction sign name mark body => sign.1 :: name.1 :: mark.1 :: body.word
  | .application func args => func.word ++ args.word

def Atom.word : Atom → List Token
  | .name token => [token.1]
  | .group left inner right => left.1 :: (inner.word ++ [right.1])

def Atoms.word : Atoms → List Token
  | .nil => []
  | .cons first rest => first.word ++ rest.word

end

mutual

/-- The term of an expression: an abstraction is named by its binder. -/
def Expression.term : Expression → Term
  | .abstraction _ name _ body => .lam (some name.1.text) none body.term
  | .application func args => args.applied func.term

/-- The term of an atom: parentheses leave no trace. -/
def Atom.term : Atom → Term
  | .name token => .var (some token.1.text) none false
  | .group _ inner _ => inner.term

/-- A term applied to a row of atoms, from the left. -/
def Atoms.applied : Atoms → Term → Term
  | .nil, func => func
  | .cons first rest, func => rest.applied (.app func first.term)

end

/-- A sentence is the word of an expression. -/
def Sentence (ts : List Token) : Prop := ∃ e : Expression, e.word = ts

/-- Rows of tokens that may follow an expression: no atom and no abstraction begins them. -/
def MayFollow (ts : List Token) : Prop := ∀ t ∈ ts.head?, t.kind.begins = false

theorem MayFollow.nil : MayFollow [] := by simp [MayFollow]

theorem mayFollow_cons {t : Token} {ts : List Token} :
    MayFollow (t :: ts) ↔ t.kind.begins = false := by
  simp [MayFollow]

/-- An atom begins with a name or an opening parenthesis. -/
theorem Atom.word_eq_cons (a : Atom) :
    ∃ t ts, a.word = t :: ts ∧ (t.kind = .identifier ∨ t.kind = .opening) := by
  cases a with
  | name token => exact ⟨token.1, [], by simp [Atom.word], Or.inl token.2⟩
  | group left inner right =>
      exact ⟨left.1, inner.word ++ [right.1], by simp [Atom.word], Or.inr left.2⟩

theorem Atom.not_mayFollow (a : Atom) (us : List Token) : ¬ MayFollow (a.word ++ us) := by
  obtain ⟨t, ts, hw, hk⟩ := a.word_eq_cons
  intro h
  rw [hw, List.cons_append, mayFollow_cons] at h
  rcases hk with hk | hk <;> simp [hk, TokenKind.begins] at h

mutual

/-- **Expressions are read in one way only.**  Where no atom can follow, the word of an expression
and what comes after it cannot be split otherwise, and come from one derivation. -/
theorem Expression.word_append_inj {d e : Expression} {us vs : List Token}
    (hus : MayFollow us) (hvs : MayFollow vs) (h : d.word ++ us = e.word ++ vs) :
    d = e ∧ us = vs := by
  match d, e with
  | .abstraction sign name mark body, .abstraction sign' name' mark' body' =>
      simp only [Expression.word, List.cons_append, List.cons.injEq] at h
      obtain ⟨hsign, hname, hmark, hbody⟩ := h
      obtain ⟨rfl, rfl⟩ := Expression.word_append_inj hus hvs hbody
      exact ⟨by rw [Subtype.ext hsign, Subtype.ext hname, Subtype.ext hmark], rfl⟩
  | .application func args, .application func' args' =>
      simp only [Expression.word, List.append_assoc] at h
      obtain ⟨rfl, hargs⟩ := Atom.word_append_inj h
      obtain ⟨rfl, rfl⟩ := Atoms.word_append_inj hus hvs hargs
      exact ⟨rfl, rfl⟩
  | .abstraction sign _ _ _, .application func _ =>
      obtain ⟨t, ts, hw, hk⟩ := func.word_eq_cons
      simp only [Expression.word, hw, List.cons_append, List.cons.injEq] at h
      simp [← h.1, sign.2] at hk
  | .application func _, .abstraction sign _ _ _ =>
      obtain ⟨t, ts, hw, hk⟩ := func.word_eq_cons
      simp only [Expression.word, hw, List.cons_append, List.cons.injEq] at h
      simp [h.1, sign.2] at hk

theorem Atom.word_append_inj {a b : Atom} {us vs : List Token}
    (h : a.word ++ us = b.word ++ vs) : a = b ∧ us = vs := by
  match a, b with
  | .name token, .name token' =>
      simp only [Atom.word, List.cons_append, List.nil_append, List.cons.injEq] at h
      exact ⟨by rw [Subtype.ext h.1], h.2⟩
  | .group left inner right, .group left' inner' right' =>
      simp only [Atom.word, List.cons_append, List.append_assoc, List.nil_append,
        List.cons.injEq] at h
      obtain ⟨hleft, hinner⟩ := h
      -- The closing parenthesis is what ends the inner expression: no atom begins with it.
      have hend : ∀ (x : Terminal .closing) (ts : List Token), MayFollow (x.1 :: ts) := by
        intro x ts
        simp [mayFollow_cons, x.2, TokenKind.begins]
      obtain ⟨rfl, hright⟩ := Expression.word_append_inj (hend _ _) (hend _ _) hinner
      simp only [List.cons.injEq] at hright
      exact ⟨by rw [Subtype.ext hleft, Subtype.ext hright.1], hright.2⟩
  | .name token, .group left _ _ =>
      simp only [Atom.word, List.cons_append, List.cons.injEq] at h
      have hk := token.2
      rw [h.1, left.2] at hk
      cases hk
  | .group left _ _, .name token =>
      simp only [Atom.word, List.cons_append, List.cons.injEq] at h
      have hk := token.2
      rw [← h.1, left.2] at hk
      cases hk

theorem Atoms.word_append_inj {as bs : Atoms} {us vs : List Token}
    (hus : MayFollow us) (hvs : MayFollow vs) (h : as.word ++ us = bs.word ++ vs) :
    as = bs ∧ us = vs := by
  match as, bs with
  | .nil, .nil => exact ⟨rfl, h⟩
  | .cons first rest, .cons first' rest' =>
      simp only [Atoms.word, List.append_assoc] at h
      obtain ⟨rfl, hrest⟩ := Atom.word_append_inj h
      obtain ⟨rfl, rfl⟩ := Atoms.word_append_inj hus hvs hrest
      exact ⟨rfl, rfl⟩
  | .nil, .cons first rest =>
      simp only [Atoms.word, List.nil_append, List.append_assoc] at h
      exact absurd (h ▸ hus) (first.not_mayFollow _)
  | .cons first rest, .nil =>
      simp only [Atoms.word, List.nil_append, List.append_assoc] at h
      exact absurd (h ▸ hvs) (first.not_mayFollow _)

end

/-- The grammar is unambiguous: a row of tokens has at most one derivation. -/
theorem Expression.word_injective : Function.Injective Expression.word := by
  intro d e h
  exact (Expression.word_append_inj MayFollow.nil MayFollow.nil (by rw [h])).1

end Tromp.Grammar
