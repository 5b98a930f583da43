import Tromp.Source.Parser

/-!
# How tokens are spelled

Every token of a source has the spelling of its kind.  In particular a name is made of name
characters, among which the question mark of the placeholder is not, and the token for the end
stands only at the end.
-/

namespace Tromp

/-- Whether the text of a token is one of those of its kind. -/
def Token.Spelled (t : Token) : Prop :=
  match t.kind with
  | .lambda => ∃ c, isLambdaSign c = true ∧ t.text = c.toString
  | .dot => t.text = "." ∨ t.text = "->"
  | .identifier => t.text.toList ≠ [] ∧ ∀ c ∈ t.text.toList, isNameChar c = true
  | .opening => t.text = "("
  | .closing => t.text = ")"
  | .finish => False

theorem isNameChar_of_mem_nameRun {cs : List Char} {c : Char} (h : c ∈ (nameRun cs).1) :
    isNameChar c = true := by
  fun_induction nameRun cs with
  | case1 | case2 | case4 => simp at h
  | case3 d rest _ hd ih =>
      rcases List.mem_cons.mp h with rfl | h
      · exact hd
      · exact ih h

/-- A name character and the run after it spell a name. -/
theorem spelled_name {c : Char} (hc : isNameChar c = true) (rest : List Char) (n : Nat) :
    Token.Spelled ⟨.identifier, String.ofList (c :: (nameRun rest).1), n⟩ := by
  refine ⟨by simp, ?_⟩
  intro d hd
  rcases List.mem_cons.mp (by simpa using hd) with rfl | hd
  · exact hc
  · exact isNameChar_of_mem_nameRun hd

theorem spelled_of_mem_tokensFrom {n : Nat} {cs : List Char} {t : Token}
    (h : t ∈ tokensFrom n cs) : t.Spelled := by
  fun_induction tokensFrom n cs with
  | case1 => simp at h
  | case2 n rest ih =>
      rcases List.mem_cons.mp h with rfl | h
      · exact Or.inr rfl
      · exact ih h
  | case3 n c rest _ hc ih =>
      rcases List.mem_cons.mp h with rfl | h
      · exact ⟨c, hc, rfl⟩
      · exact ih h
  | case4 n rest _ _ ih =>
      rcases List.mem_cons.mp h with rfl | h
      · exact Or.inl rfl
      · exact ih h
  | case5 n rest _ _ _ ih | case6 n rest _ _ _ _ ih =>
      rcases List.mem_cons.mp h with rfl | h
      · rfl
      · exact ih h
  | case7 n c rest _ _ _ _ _ hc name ih =>
      rcases List.mem_cons.mp h with rfl | h
      · exact spelled_name hc rest n
      · exact ih h
  | case8 n c rest _ _ _ _ _ _ ih => exact ih h

/-- Every token of a source is spelled as its kind asks. -/
theorem spelled_of_mem_tokens {source : String} {t : Token} (h : t ∈ tokens source) : t.Spelled :=
  spelled_of_mem_tokensFrom h

/-- No token before the last one is that for the end. -/
theorem Token.Spelled.kind_ne_finish {t : Token} (h : t.Spelled) : t.kind ≠ .finish := by
  intro hk
  simp [Token.Spelled, hk] at h

/-- No name of a source is the placeholder, which is made of another character. -/
theorem Token.Spelled.text_ne_placeholder {t : Token} (h : t.Spelled)
    (hk : t.kind = .identifier) : t.text ≠ placeholder := by
  intro ht
  simp only [Token.Spelled, hk, ht] at h
  exact absurd (h.2 '?' (by decide)) (by decide)

end Tromp
