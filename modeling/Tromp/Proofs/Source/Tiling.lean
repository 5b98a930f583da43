import Mathlib.Data.List.Pairwise
import Tromp.Proofs.Source.Spelling
import Tromp.Text.Slice

/-!
# Tokens tile the source

The scanner takes a text apart from the left.  `Cut n cs ts` says so without the scanner: the text
`cs`, whose first character has the position `n`, falls apart into the tokens `ts`, and between them
stand only characters that no token can hold.  There is one rule for a character that is skipped and
one for a token, and the latter tells what the token leaves behind: a name stops only where it must,
and nothing but a dot takes the minus sign of an arrow.

The scanner cuts in this way (`cut_tokensFrom`).  What is said about tokens and positions after that
is by induction on the cut.
-/

namespace Tromp

namespace Token

variable {x : Token}

/-- The position after the last character of a token. -/
def stop (x : Token) : Nat := x.position + x.text.length

/-- Whether a token takes up the place of a character. -/
def Covers (x : Token) (i : Nat) : Prop := x.position ≤ i ∧ i < x.stop

/-- A spelled token has characters. -/
theorem Spelled.length_pos (h : x.Spelled) : 0 < x.text.length := by
  rw [← String.length_toList, List.length_pos_iff]
  cases hk : x.kind <;> simp only [Spelled, hk] at h
  case lambda =>
    obtain ⟨c, -, ht⟩ := h
    simp [ht]
  case dot => rcases h with ht | ht <;> simp [ht]
  case identifier => exact h.1
  case opening | closing => simp [h]

/-- The only dot in which an arrow begins is the arrow. -/
theorem Spelled.arrow_of_dot (h : x.Spelled) (hk : x.kind = .dot) {i : Nat} {cs : List Char}
    (hi : i < x.text.toList.length) (harrow : ['-', '>'] <+: (x.text.toList ++ cs).drop i) :
    i = 0 ∧ x.text = "->" := by
  simp only [Spelled, hk] at h
  rcases h with ht | ht
  · obtain rfl : i = 0 := by simpa [ht] using hi
    simp [ht] at harrow
  · cases i with
    | zero => exact ⟨rfl, ht⟩
    | succ i =>
        have hlt : i + 1 < 2 := by simpa [ht] using hi
        obtain rfl : i = 0 := by omega
        simp [ht] at harrow

end Token

/-- Whether a token can begin with a character, or go on with it. -/
def isTokenChar (c : Char) : Bool :=
  isLambdaSign c || c == '.' || c == '(' || c == ')' || isNameChar c

/-! ### Names -/

/-- A run of name characters and what is left make up the text. -/
theorem nameRun_append_rest (cs : List Char) : (nameRun cs).1 ++ (nameRun cs).2 = cs := by
  fun_induction nameRun cs with
  | case1 | case2 | case4 => rfl
  | case3 c rest _ _ ih => rw [List.cons_append, ih]

/-- A run of name characters does not take the minus sign of an arrow. -/
theorem not_arrow_of_lt_nameRun {cs : List Char} {i : Nat} (hi : i < (nameRun cs).1.length) :
    ¬ ['-', '>'] <+: cs.drop i := by
  fun_induction nameRun cs generalizing i with
  | case1 | case2 | case4 => simp at hi
  | case3 c rest harrow _ ih =>
      cases i with
      | zero =>
          intro h
          obtain ⟨rest', heq⟩ := h
          cases heq
          exact harrow rest' rfl rfl
      | succ i => exact ih (by simpa using hi)

/-- A run of name characters stops only before an arrow or before a character of another kind. -/
theorem arrow_of_head_nameRun {cs : List Char} {c : Char} (h : c ∈ (nameRun cs).2.head?)
    (hc : isNameChar c = true) : ['-', '>'] <+: (nameRun cs).2 := by
  fun_induction nameRun cs with
  | case1 => simp at h
  | case2 rest => simp
  | case3 d rest _ _ ih => exact ih h
  | case4 d rest _ hd =>
      obtain rfl : d = c := by simpa using h
      exact absurd hc hd

/-! ### Cuts -/

/-- A text falls apart into tokens and characters that no token can hold. -/
inductive Cut : Nat → List Char → List Token → Prop
  | finished (n : Nat) : Cut n [] []
  | skipped {n : Nat} {c : Char} {cs : List Char} {ts : List Token} (hc : isTokenChar c = false)
      (hrest : Cut (n + 1) cs ts) : Cut n (c :: cs) ts
  | token {x : Token} {n : Nat} {word cs : List Char} {ts : List Token} (hx : x.Spelled)
      (hposition : x.position = n) (hword : x.text.toList = word)
      (harrow : x.kind ≠ .dot → ∀ i < word.length, ¬ ['-', '>'] <+: (word ++ cs).drop i)
      (hname : x.kind = .identifier → ∀ c ∈ cs.head?, isNameChar c = true → ['-', '>'] <+: cs)
      (hrest : Cut (n + word.length) cs ts) : Cut n (word ++ cs) (x :: ts)

/-- A token of one character that is neither a name nor a part of an arrow. -/
theorem Cut.mark {kind : TokenKind} {n : Nat} {c : Char} {cs : List Char} {ts : List Token}
    (hx : Token.Spelled ⟨kind, c.toString, n⟩) (hkind : kind ≠ .identifier) (hc : c ≠ '-')
    (hrest : Cut (n + 1) cs ts) : Cut n (c :: cs) (⟨kind, c.toString, n⟩ :: ts) := by
  have hword : c.toString.toList = [c] := by simp
  refine Cut.token hx rfl hword ?_ (fun hk => absurd hk hkind) hrest
  intro _ i hi harrow
  obtain rfl : i = 0 := by simpa using hi
  have hfirst : '-' = c ∧ ['>'] <+: cs := by simpa using harrow
  exact hc hfirst.1.symm

/-- **The scanner cuts the text.** -/
theorem cut_tokensFrom (n : Nat) (cs : List Char) : Cut n cs (tokensFrom n cs) := by
  fun_induction tokensFrom n cs with
  | case1 n => exact .finished n
  | case2 n rest ih =>
      have harrow : Token.Spelled ⟨.dot, "->", n⟩ := Or.inr rfl
      exact .token harrow rfl (by simp : "->".toList = ['-', '>']) (by simp) (by simp) ih
  | case3 n c rest _ hc ih =>
      refine .mark ⟨c, hc, rfl⟩ (by decide) ?_ ih
      intro hminus
      exact absurd hc (by rw [hminus]; decide)
  | case4 n rest _ _ ih => exact .mark (Or.inl rfl) (by decide) (by decide) ih
  | case5 n rest _ _ _ ih => exact .mark rfl (by decide) (by decide) ih
  | case6 n rest _ _ _ _ ih => exact .mark rfl (by decide) (by decide) ih
  | case7 n c rest hfirst _ _ _ _ hc name ih =>
      have hwhole : name ++ (nameRun rest).2 = c :: rest := by
        simp only [name, List.cons_append, nameRun_append_rest]
      rw [← hwhole]
      refine .token (spelled_name hc rest n) rfl (by simp [name]) ?_
        (fun _ d => arrow_of_head_nameRun) ih
      intro _ i hi
      rw [hwhole]
      cases i with
      | zero =>
          rintro ⟨rest', heq⟩
          cases heq
          exact hfirst rest' rfl rfl
      | succ i =>
          have hrun : i < (nameRun rest).1.length := by simpa [name] using hi
          have hrest := not_arrow_of_lt_nameRun hrun
          exact hrest
  | case8 n c rest _ hsign hdot hopening hclosing hname ih =>
      refine .skipped ?_ ih
      simp [isTokenChar, hsign, hdot, hopening, hclosing, hname]

namespace Cut

variable {n i : Nat} {c : Char} {cs : List Char} {ts : List Token} {x : Token}

/-- Every token stands in the text where its position says, and a name goes on as long as it can. -/
theorem exists_eq_append (h : Cut n cs ts) (hx : x ∈ ts) :
    ∃ before rest, cs = before ++ (x.text.toList ++ rest) ∧ x.position = n + before.length ∧
      (x.kind = .identifier → ∀ c ∈ rest.head?, isNameChar c = true → ['-', '>'] <+: rest) := by
  induction h with
  | finished => simp at hx
  | @skipped n c cs ts _ _ ih =>
      obtain ⟨before, rest, rfl, hposition, hname⟩ := ih hx
      refine ⟨c :: before, rest, rfl, ?_, hname⟩
      rw [hposition, List.length_cons]
      omega
  | @token y n word cs ts _ hposition hword _ hname _ ih =>
      rcases List.mem_cons.mp hx with rfl | hx
      · exact ⟨[], cs, by rw [hword, List.nil_append], hposition, hname⟩
      · obtain ⟨before, rest, rfl, hposition, hname⟩ := ih hx
        refine ⟨word ++ before, rest, by rw [List.append_assoc], ?_, hname⟩
        rw [hposition, List.length_append]
        omega

theorem bounds (h : Cut n cs ts) (hx : x ∈ ts) : n ≤ x.position ∧ x.stop ≤ n + cs.length := by
  obtain ⟨before, rest, rfl, hposition, -⟩ := h.exists_eq_append hx
  simp only [Token.stop, List.length_append, String.length_toList]
  omega

/-- A character that a token can hold stands in one. -/
theorem exists_covers (h : Cut n cs ts) (hi : cs[i]? = some c) (hc : isTokenChar c = true) :
    ∃ x ∈ ts, x.Covers (n + i) := by
  induction h generalizing i with
  | finished => simp at hi
  | @skipped n d cs ts hd _ ih =>
      cases i with
      | zero =>
          obtain rfl : d = c := by simpa using hi
          simp [hd] at hc
      | succ i =>
          obtain ⟨x, hx, hcovers⟩ := ih (by simpa using hi)
          rw [Nat.add_right_comm] at hcovers
          exact ⟨x, hx, hcovers⟩
  | @token x n word cs ts _ hposition hword _ _ _ ih =>
      by_cases hlt : i < word.length
      · refine ⟨x, List.mem_cons_self, ?_, ?_⟩
        · omega
        · rw [Token.stop, ← String.length_toList, hword]
          omega
      · rw [List.getElem?_append_right (Nat.le_of_not_lt hlt)] at hi
        obtain ⟨y, hy, hcovers⟩ := ih hi
        rw [Nat.add_assoc, Nat.add_sub_cancel' (Nat.le_of_not_lt hlt)] at hcovers
        exact ⟨y, List.mem_cons_of_mem _ hy, hcovers⟩

/-- **An arrow is a dot.** -/
theorem arrow_mem (h : Cut n cs ts) (hi : ['-', '>'] <+: cs.drop i) : ⟨.dot, "->", n + i⟩ ∈ ts := by
  induction h generalizing i with
  | finished => simp at hi
  | @skipped n c cs ts hc _ ih =>
      cases i with
      | zero =>
          obtain ⟨rfl, -⟩ : '-' = c ∧ ['>'] <+: cs := by simpa using hi
          exact absurd hc (by decide)
      | succ i =>
          have hmem := ih hi
          rwa [Nat.add_right_comm] at hmem
  | @token x n word cs ts hx hposition hword harrow _ _ ih =>
      by_cases hlt : i < word.length
      · by_cases hk : x.kind = .dot
        · subst hword
          obtain ⟨rfl, htext⟩ := hx.arrow_of_dot hk hlt hi
          have heq : x = ⟨.dot, "->", n⟩ := by
            rw [← hk, ← htext, ← hposition]
          rw [heq]
          exact List.mem_cons_self
        · exact absurd hi (harrow hk i hlt)
      · obtain ⟨j, rfl⟩ := Nat.exists_eq_add_of_le (Nat.le_of_not_lt hlt)
        rw [List.drop_length_add_append] at hi
        have hmem := ih hi
        rw [Nat.add_assoc] at hmem
        exact List.mem_cons_of_mem _ hmem

/-- Tokens stand one after the other. -/
theorem pairwise (h : Cut n cs ts) : ts.Pairwise fun x y => x.stop ≤ y.position := by
  induction h with
  | finished => exact .nil
  | skipped _ _ ih => exact ih
  | @token x n word cs ts _ hposition hword _ _ hrest ih =>
      refine List.pairwise_cons.mpr ⟨?_, ih⟩
      intro y hy
      rw [Token.stop, hposition, ← String.length_toList, hword]
      exact (hrest.bounds hy).1

end Cut

/-- No place stands in two tokens. -/
theorem eq_of_covers {ts : List Token} {x y : Token} {i : Nat}
    (h : ts.Pairwise fun x y => x.stop ≤ y.position) (hx : x ∈ ts) (hy : y ∈ ts)
    (hxi : x.Covers i) (hyi : y.Covers i) : x = y := by
  by_contra hne
  have happart : ts.Pairwise fun x y => ¬ (x.Covers i ∧ y.Covers i) := by
    refine h.imp ?_
    intro x y hle hboth
    have hlt := hboth.1.2
    have hge := hboth.2.1
    omega
  have hsymm : Std.Symm fun x y : Token => ¬ (x.Covers i ∧ y.Covers i) :=
    ⟨fun _ _ hxy hyx => hxy hyx.symm⟩
  exact happart.forall hx hy hne ⟨hxi, hyi⟩

/-! ### Tilings -/

/-- A row of tokens, the one for the end included, tiles a text. -/
structure Tiles (ts : List Token) (cs : List Char) : Prop where
  /-- Positions increase. -/
  increasing : ts.Pairwise fun x y => x.position < y.position
  /-- The last token is that for the end of the text. -/
  last : ts.getLast? = some ⟨.finish, "", cs.length⟩
  /-- The text of a token is what stands at its position. -/
  slice_eq : ∀ x ∈ ts, slice x.position x.stop cs = x.text.toList
  /-- No two tokens share a place. -/
  disjoint : ts.Pairwise fun x y => x.stop ≤ y.position
  /-- What stands in no token can be part of none. -/
  skipped : ∀ i c, cs[i]? = some c → (∀ x ∈ ts, ¬ x.Covers i) → isTokenChar c = false
  /-- A name contains no arrow. -/
  arrowless : ∀ x ∈ ts, x.kind = .identifier → ¬ ['-', '>'] <:+: x.text.toList
  /-- A name goes on until a character that is no part of names, or an arrow, or the end. -/
  longest : ∀ x ∈ ts, x.kind = .identifier → ∀ c, cs[x.stop]? = some c → isNameChar c = true →
    ['-', '>'] <+: cs.drop x.stop
  /-- No name follows a name at once. -/
  apart : ∀ x ∈ ts, ∀ y ∈ ts, x.kind = .identifier → y.kind = .identifier → x.stop ≠ y.position
  /-- Each arrow of the text is one dot, and nothing else has a part in it. -/
  arrows : ∀ i, ['-', '>'] <+: cs.drop i → ⟨.dot, "->", i⟩ ∈ ts ∧
    ∀ x ∈ ts, x.Covers i ∨ x.Covers (i + 1) → x = ⟨.dot, "->", i⟩

section Whole

variable {source : String} {x : Token}

theorem mem_tokenize_iff : x ∈ tokenize source ↔ x ∈ tokens source ∨ x = finishToken source := by
  simp [tokenize]

theorem mem_tokens_of_kind_ne (h : x ∈ tokenize source) (hk : x.kind ≠ .finish) :
    x ∈ tokens source := by
  rcases mem_tokenize_iff.mp h with h | rfl
  · exact h
  · exact absurd rfl hk

theorem cut_tokens (source : String) : Cut 0 source.toList (tokens source) :=
  cut_tokensFrom 0 source.toList

/-- Every token stands in its source where its position says. -/
theorem exists_toList_eq (hx : x ∈ tokens source) :
    ∃ before rest, source.toList = before ++ (x.text.toList ++ rest) ∧
      x.position = before.length ∧ x.stop = (before ++ x.text.toList).length ∧
      (x.kind = .identifier → ∀ c ∈ rest.head?, isNameChar c = true → ['-', '>'] <+: rest) := by
  obtain ⟨before, rest, hsource, hposition, hname⟩ := (cut_tokens source).exists_eq_append hx
  rw [Nat.zero_add] at hposition
  refine ⟨before, rest, hsource, hposition, ?_, hname⟩
  rw [Token.stop, hposition, List.length_append, String.length_toList]

theorem position_lt_stop (hx : x ∈ tokens source) : x.position < x.stop := by
  have hlength := (spelled_of_mem_tokens hx).length_pos
  rw [Token.stop]
  omega

/-- The tokens of a source stand one after the other, up to the end. -/
theorem pairwise_tokenize (source : String) :
    (tokenize source).Pairwise fun x y => x.stop ≤ y.position := by
  refine List.pairwise_append.mpr
    ⟨(cut_tokens source).pairwise, List.pairwise_singleton _ _, ?_⟩
  intro x hx y hy
  obtain rfl := List.mem_singleton.mp hy
  obtain ⟨before, rest, hsource, -, hstop, -⟩ := exists_toList_eq hx
  calc x.stop = (before ++ x.text.toList).length := hstop
    _ ≤ (before ++ x.text.toList ++ rest).length := (List.prefix_append _ rest).length_le
    _ = source.length := by rw [List.append_assoc, ← hsource, String.length_toList]

theorem increasing_tokenize (source : String) :
    (tokenize source).Pairwise fun x y => x.position < y.position := by
  obtain ⟨htokens, hlast, hends⟩ := List.pairwise_append.mp (pairwise_tokenize source)
  refine List.pairwise_append.mpr ⟨?_, List.pairwise_singleton _ _, ?_⟩
  · refine htokens.imp_of_mem ?_
    intro x y hx _ hle
    exact Nat.lt_of_lt_of_le (position_lt_stop hx) hle
  · intro x hx y hy
    exact Nat.lt_of_lt_of_le (position_lt_stop hx) (hends x hx y hy)

/-- What stands in the text at the places of a token is the text of the token. -/
theorem slice_eq_of_mem_tokenize (hx : x ∈ tokenize source) :
    slice x.position x.stop source.toList = x.text.toList := by
  rw [slice_ofNat]
  rcases mem_tokenize_iff.mp hx with hx | rfl
  · obtain ⟨before, rest, hsource, hposition, hstop, -⟩ := exists_toList_eq hx
    rw [hsource, hstop, hposition, ← List.append_assoc, List.take_left, List.drop_left]
  · simp [finishToken, Token.stop]

/-- A name goes on as long as it can. -/
theorem arrow_of_stop (hx : x ∈ tokens source) (hk : x.kind = .identifier) {c : Char}
    (hc : source.toList[x.stop]? = some c) (hchar : isNameChar c = true) :
    ['-', '>'] <+: source.toList.drop x.stop := by
  obtain ⟨before, rest, hsource, -, hstop, hname⟩ := exists_toList_eq hx
  rw [hsource, ← List.append_assoc, hstop] at hc ⊢
  rw [List.drop_left]
  refine hname hk c ?_ hchar
  rw [List.getElem?_append_right (Nat.le_refl _), Nat.sub_self] at hc
  rw [List.head?_eq_getElem?]
  exact hc

/-- An arrow is a dot, and no other token has a part in it. -/
theorem dot_of_arrow {i : Nat} (hi : ['-', '>'] <+: source.toList.drop i) :
    ⟨.dot, "->", i⟩ ∈ tokenize source ∧
      ∀ x ∈ tokenize source, x.Covers i ∨ x.Covers (i + 1) → x = ⟨.dot, "->", i⟩ := by
  have hdot := (cut_tokens source).arrow_mem hi
  rw [Nat.zero_add] at hdot
  have hmem : ⟨.dot, "->", i⟩ ∈ tokenize source := mem_tokenize_iff.mpr (Or.inl hdot)
  have hstop : Token.stop ⟨.dot, "->", i⟩ = i + 2 := by
    have hlength : "->".length = 2 := by decide
    rw [Token.stop, hlength]
  refine ⟨hmem, ?_⟩
  intro x hx hcovers
  rcases hcovers with hcovers | hcovers
  · exact eq_of_covers (pairwise_tokenize source) hx hmem hcovers ⟨Nat.le_refl i, by omega⟩
  · exact eq_of_covers (pairwise_tokenize source) hx hmem hcovers ⟨Nat.le_succ i, by omega⟩

/-- Two names do not stand side by side: the first character of the second one would belong to the
first, or to an arrow. -/
theorem stop_ne_position {y : Token} (hx : x ∈ tokens source) (hy : y ∈ tokens source)
    (hxk : x.kind = .identifier) (hyk : y.kind = .identifier) : x.stop ≠ y.position := by
  intro heq
  obtain ⟨before, rest, hsource, hposition, -, -⟩ := exists_toList_eq hy
  have hspelled := spelled_of_mem_tokens hy
  simp only [Token.Spelled, hyk] at hspelled
  obtain ⟨c, cs, hcs⟩ := List.exists_cons_of_ne_nil hspelled.1
  have hc : source.toList[x.stop]? = some c := by
    rw [heq, hposition, hsource, List.getElem?_append_right (Nat.le_refl _), Nat.sub_self, hcs]
    rfl
  have hchar : isNameChar c = true := hspelled.2 c (by rw [hcs]; exact List.mem_cons_self)
  have hdot := (dot_of_arrow (arrow_of_stop hx hxk hc hchar)).2 y (mem_tokenize_iff.mpr (Or.inl hy))
    (Or.inl ⟨Nat.le_of_eq heq.symm, heq ▸ position_lt_stop hy⟩)
  rw [hdot] at hyk
  cases hyk

/-- **Tokens tile the source.** -/
theorem tokenize_tiles (source : String) : Tiles (tokenize source) source.toList := by
  have hname : ∀ x ∈ tokenize source, x.kind = .identifier → x ∈ tokens source := by
    intro x hx hk
    exact mem_tokens_of_kind_ne hx (by rw [hk]; decide)
  refine ⟨increasing_tokenize source, ?_, fun x => slice_eq_of_mem_tokenize,
    pairwise_tokenize source, ?_, ?_, ?_, ?_, fun i => dot_of_arrow⟩
  · rw [tokenize, List.getLast?_concat, finishToken, String.length_toList]
  · intro i c hc huncovered
    by_contra hchar
    obtain ⟨x, hx, hcovers⟩ := (cut_tokens source).exists_covers hc (eq_true_of_ne_false hchar)
    rw [Nat.zero_add] at hcovers
    exact huncovered x (mem_tokenize_iff.mpr (Or.inl hx)) hcovers
  · intro x hx hk harrow
    have hspelled := spelled_of_mem_tokens (hname x hx hk)
    simp only [Token.Spelled, hk] at hspelled
    exact absurd (hspelled.2 '>' (harrow.subset (by simp))) (by decide)
  · intro x hx hk c hc
    exact arrow_of_stop (hname x hx hk) hk hc
  · intro x hx y hy hxk hyk
    exact stop_ne_position (hname x hx hxk) (hname y hy hyk) hxk hyk

end Whole

end Tromp
