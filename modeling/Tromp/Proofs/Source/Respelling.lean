import Mathlib.Data.List.Forall2
import Tromp.Proofs.Source.RoundTrip

/-!
# Spacing and notation

A source can be written anew: what its tokens are written with is joined by single spaces, and a
lambda sign or a dot may be written in its other way.  Two facts make the new text mean the same.

1.  What a token is written with is one token again where a space or the end follows, and a space
    is none (`tokensFrom_join`).  This is where a minus sign at the end of a name, or a dot written
    as an arrow, could do harm.
2.  The parser looks at the kinds of tokens and at the texts of names only: whatever is read from
    some tokens is read from tokens like them, with as many complaints (`Reads.alike`).
-/

namespace Tromp

open Grammar

/-- The ways to write a token: a lambda sign and a dot have two, any other token has its own. -/
def Token.spellings (x : Token) : List String :=
  match x.kind with
  | .lambda => ["λ", "\\"]
  | .dot => [".", "->"]
  | .identifier | .opening | .closing | .finish => [x.text]

/-- Whether a token can be written with a word. -/
def Token.WrittenAs (x : Token) (word : String) : Prop := word ∈ x.spellings

instance (x : Token) : DecidablePred x.WrittenAs := fun word =>
  inferInstanceAs (Decidable (word ∈ x.spellings))

/-- Two tokens that the parser does not tell apart: they are of one kind, and names are equal. -/
def Token.Alike (x y : Token) : Prop :=
  x.kind = y.kind ∧ (x.kind = .identifier → x.text = y.text)

/-- Two rows of tokens that the parser does not tell apart. -/
def AlikeTokens (ts us : List Token) : Prop := List.Forall₂ Token.Alike ts us

/-! ### Joined texts -/

section Tokens

variable {n : Nat} {rest : List Char} {x : Token} {word : String}

theorem tokensFrom_backslash :
    tokensFrom n ('\\' :: rest) = ⟨.lambda, "\\", n⟩ :: tokensFrom (n + 1) rest := by
  rw [tokensFrom] <;> simp [isLambdaSign]

theorem tokensFrom_arrow :
    tokensFrom n ('-' :: '>' :: rest) = ⟨.dot, "->", n⟩ :: tokensFrom (n + 2) rest := by
  rw [tokensFrom]

/-- What a token is written with is a token like it, if a name in it ends there. -/
theorem tokensFrom_word (hx : x.Spelled) (hword : x.WrittenAs word) (hrest : EndsName rest) :
    ∃ y m, tokensFrom n (word.toList ++ rest) = y :: tokensFrom m rest ∧ x.Alike y := by
  cases hk : x.kind <;> simp only [Token.Spelled, Token.WrittenAs, Token.spellings, hk] at hx hword
  case lambda =>
    rcases List.mem_pair.mp hword with rfl | rfl
    · exact ⟨_, _, tokensFrom_lambda, hk, by simp [hk]⟩
    · exact ⟨_, _, tokensFrom_backslash, hk, by simp [hk]⟩
  case dot =>
    rcases List.mem_pair.mp hword with rfl | rfl
    · exact ⟨_, _, tokensFrom_dot, hk, by simp [hk]⟩
    · exact ⟨_, _, tokensFrom_arrow, hk, by simp [hk]⟩
  case identifier =>
    obtain rfl := List.mem_singleton.mp hword
    have hname : IsSourceName x.text := ⟨by simpa using hx.1, hx.2⟩
    obtain ⟨m, hm⟩ := tokensFrom_name (n := n) hname hrest
    exact ⟨_, m, hm, hk, fun _ => rfl⟩
  case opening =>
    obtain rfl := (List.mem_singleton.mp hword).trans hx
    exact ⟨_, _, tokensFrom_opening, hk, by simp [hk]⟩
  case closing =>
    obtain rfl := (List.mem_singleton.mp hword).trans hx
    exact ⟨_, _, tokensFrom_closing, hk, by simp [hk]⟩

/-- **Joined words are cut where they were joined.** -/
theorem tokensFrom_join {ts : List Token} {words : List String} (hspelled : ∀ x ∈ ts, x.Spelled)
    (h : List.Forall₂ Token.WrittenAs ts words) (n : Nat) :
    AlikeTokens ts (tokensFrom n (List.intercalate [' '] (words.map String.toList))) := by
  induction h generalizing n with
  | nil =>
      rw [List.map_nil, List.intercalate_nil, tokensFrom]
      exact .nil
  | @cons x word ts words hword hwords ih =>
      obtain ⟨hx, hrest⟩ := List.forall_mem_cons.mp hspelled
      cases hwords with
      | nil =>
          obtain ⟨y, m, htokens, hy⟩ := tokensFrom_word (n := n) hx hword EndsName.nil
          have hjoin : [' '].intercalate ([word].map String.toList) = word.toList ++ [] := by simp
          rw [hjoin, htokens]
          exact .cons hy (by simp [tokensFrom])
      | @cons x' word' ts' words' hword' hwords' =>
          obtain ⟨rest, hjoined⟩ : ∃ rest,
              rest = [' '].intercalate ((word' :: words').map String.toList) := ⟨_, rfl⟩
          have hspace : EndsName (' ' :: rest) := endsName_cons.mpr (by decide)
          obtain ⟨y, m, htokens, hy⟩ := tokensFrom_word (n := n) hx hword hspace
          have hjoin : [' '].intercalate ((word :: word' :: words').map String.toList) =
              word.toList ++ ' ' :: rest := by
            simp [hjoined, List.intercalate_cons_cons]
          rw [hjoin, htokens, tokensFrom_space, hjoined]
          exact .cons hy (ih hrest (m + 1))

end Tokens

/-! ### Reading -/

namespace AlikeTokens

variable {ts us : List Token}

theorem exists_cons {x : Token} (h : AlikeTokens (x :: ts) us) :
    ∃ y vs, us = y :: vs ∧ x.Alike y ∧ AlikeTokens ts vs := by
  cases h with
  | cons hxy hrest => exact ⟨_, _, rfl, hxy, hrest⟩

/-- Rows that are alike begin alike. -/
theorem head_iff (h : AlikeTokens ts us) (P : TokenKind → Prop) :
    (∀ x ∈ ts.head?, P x.kind) ↔ ∀ x ∈ us.head?, P x.kind := by
  cases h with
  | nil => simp
  | cons hx _ => simp [hx.1]

theorem mayFollow_iff (h : AlikeTokens ts us) : MayFollow ts ↔ MayFollow us :=
  h.head_iff fun k => k.begins = false

theorem map_kind (h : AlikeTokens ts us) : ts.map (·.kind) = us.map (·.kind) := by
  induction h with
  | nil => rfl
  | cons hx _ ih => rw [List.map_cons, List.map_cons, hx.1, ih]

theorem map_text (h : AlikeTokens ts us) :
    (ts.filter (·.kind = .identifier)).map (·.text) =
      (us.filter (·.kind = .identifier)).map (·.text) := by
  induction h with
  | nil => rfl
  | @cons x y ts us hx _ ih =>
      obtain ⟨hkind, htext⟩ := hx
      by_cases hk : x.kind = .identifier
      · simp [hk, ← hkind, htext hk, ih]
      · simp [hk, ← hkind, ih]

end AlikeTokens

/-- Two snags that differ in the tokens only, and these are alike. -/
def Snag.Alike (s r : Snag) : Prop := s.complaint = r.complaint ∧ AlikeTokens s.rest r.rest

variable {k : Phrase} {t : Term} {ts us vs : List Token} {fs : List Snag}

/-- A token is taken, or missed, where one like it is. -/
theorem Takes.alike {kind : TokenKind} {c : Complaint} {x : Option Token}
    (h : Takes kind c ts x fs us) (hts : AlikeTokens ts vs) :
    ∃ y gs ws, Takes kind c vs y gs ws ∧ (kind = .identifier → binderName x = binderName y) ∧
      List.Forall₂ Snag.Alike fs gs ∧ AlikeTokens us ws := by
  cases h with
  | present hx =>
      obtain ⟨y, ws, rfl, hxy, hrest⟩ := hts.exists_cons
      refine ⟨some y, [], ws, .present (hxy.1 ▸ hx), ?_, .nil, hrest⟩
      intro hk
      exact hxy.2 (hx.trans hk)
  | absent hx =>
      have hy := (hts.head_iff (· ≠ kind)).mp hx
      exact ⟨none, _, vs, .absent hy, fun _ => rfl, .cons ⟨rfl, hts⟩ .nil, hts⟩

/-- **The parser reads alike what is alike.** -/
theorem Reads.alike (h : Reads k ts t fs us) (hts : AlikeTokens ts vs) :
    ∃ gs ws, Reads k vs t gs ws ∧ List.Forall₂ Snag.Alike fs gs ∧ AlikeTokens us ws := by
  induction h generalizing vs with
  | abstraction hx _ ih =>
      obtain ⟨y, vs, rfl, hxy, hrest⟩ := hts.exists_cons
      obtain ⟨gs, ws, hread, hgs, hws⟩ := ih hrest
      exact ⟨gs, ws, .abstraction (hxy.1 ▸ hx) hread, hgs, hws⟩
  | expression hx _ ih =>
      obtain ⟨gs, ws, hread, hgs, hws⟩ := ih hts
      exact ⟨gs, ws, .expression ((hts.head_iff (· ≠ .lambda)).mp hx) hread, hgs, hws⟩
  | binding hname hdot _ ih =>
      obtain ⟨x, fs', us', hname', hx, hfs, hus⟩ := hname.alike hts
      obtain ⟨y, gs', vs', hdot', -, hgs, hvs⟩ := hdot.alike hus
      obtain ⟨hs', ws', hbody, hhs, hws⟩ := ih hvs
      rw [hx rfl]
      exact ⟨_, ws', .binding hname' hdot' hbody, List.rel_append (List.rel_append hfs hgs) hhs, hws⟩
  | application _ _ ihf iha =>
      obtain ⟨fs', us', hfunc, hfs, hus⟩ := ihf hts
      obtain ⟨gs', vs', hargs, hgs, hvs⟩ := iha hus
      exact ⟨_, vs', .application hfunc hargs, List.rel_append hfs hgs, hvs⟩
  | noArgument hend => exact ⟨[], vs, .noArgument (hts.mayFollow_iff.mp hend), .nil, hts⟩
  | argument hgoes _ _ iha ihr =>
      obtain ⟨fs', us', harg, hfs, hus⟩ := iha hts
      obtain ⟨gs', vs', hrest, hgs, hvs⟩ := ihr hus
      have hgoes' := mt hts.mayFollow_iff.mpr hgoes
      exact ⟨_, vs', .argument hgoes' harg hrest, List.rel_append hfs hgs, hvs⟩
  | name hx =>
      obtain ⟨y, vs, rfl, hxy, hrest⟩ := hts.exists_cons
      rw [hxy.2 hx]
      exact ⟨[], vs, .name (hxy.1 ▸ hx), .nil, hrest⟩
  | group hx _ hclose ih =>
      obtain ⟨y, vs, rfl, hxy, hrest⟩ := hts.exists_cons
      obtain ⟨fs', us', hinner, hfs, hus⟩ := ih hrest
      obtain ⟨z, gs', vs', hclose', -, hgs, hvs⟩ := hclose.alike hus
      exact ⟨_, vs', .group (hxy.1 ▸ hx) hinner hclose', List.rel_append hfs hgs, hvs⟩
  -- A snag is alike with the tokens from which it was read, before any of them is taken.
  | bare hx _ ih =>
      obtain ⟨y, vs, rfl, hxy, hrest⟩ := hts.exists_cons
      obtain ⟨gs, ws, hread, hgs, hws⟩ := ih hrest
      exact ⟨_, ws, .bare (hxy.1 ▸ hx) hread, .cons ⟨rfl, hts⟩ hgs, hws⟩
  | skipped hx =>
      obtain ⟨y, vs, rfl, hxy, hrest⟩ := hts.exists_cons
      exact ⟨_, vs, .skipped (hxy.1 ▸ hx), .cons ⟨rfl, hts⟩ .nil, hrest⟩
  | missing hx =>
      exact ⟨_, vs, .missing ((hts.head_iff (· = .closing)).mp hx), .cons ⟨rfl, hts⟩ .nil, hts⟩
  | finished =>
      obtain rfl := List.forall₂_nil_left_iff.mp hts
      exact ⟨[], [], .finished, .nil, .nil⟩
  | resumed hx hgoes _ _ iha ihr =>
      obtain ⟨y, vs, rfl, hxy, hrest⟩ := hts.exists_cons
      obtain ⟨fs', us', harg, hfs, hus⟩ := iha hrest
      obtain ⟨gs', vs', hafter, hgs, hvs⟩ := ihr hus
      have hgoes' := mt hrest.mayFollow_iff.mpr hgoes
      exact ⟨_, vs', .resumed (hxy.1 ▸ hx) hgoes' harg hafter,
        .cons ⟨rfl, hts⟩ (List.rel_append hfs hgs), hvs⟩
  | discarded hx hend _ ih =>
      obtain ⟨y, vs, rfl, hxy, hrest⟩ := hts.exists_cons
      obtain ⟨gs, ws, hafter, hgs, hws⟩ := ih hrest
      have hend' := hrest.mayFollow_iff.mp hend
      exact ⟨_, ws, .discarded (hxy.1 ▸ hx) hend' hafter, .cons ⟨rfl, hts⟩ hgs, hws⟩
  | whole _ _ ihe ihr =>
      obtain ⟨fs', us', hexpr, hfs, hus⟩ := ihe hts
      obtain ⟨gs', vs', hafter, hgs, hvs⟩ := ihr hus
      exact ⟨_, vs', .whole hexpr hafter, List.rel_append hfs hgs, hvs⟩

/-! ### Sources -/

/-- Sources whose tokens are alike are parsed alike. -/
theorem AlikeTokens.parse_eq_ok_iff {source text : String}
    (h : AlikeTokens (tokens source) (tokens text)) :
    (∀ t, parse text = .ok t ↔ parse source = .ok t) ∧
      ∃ t faults faults', recover source = (.ok t, faults) ∧ recover text = (.ok t, faults') ∧
        faults'.length = faults.length := by
  obtain ⟨t, fs, hread⟩ := Reads.exists_whole (tokens source)
  obtain ⟨gs, ws, hread', hgs, hws⟩ := hread.alike h
  obtain rfl := List.forall₂_nil_left_iff.mp hws
  refine ⟨?_, t, _, _, hread.recover_eq, hread'.recover_eq, by simpa using hgs.length_eq.symm⟩
  intro u
  cases hgs with
  | nil => rw [hread.parse_eq_ok, hread'.parse_eq_ok]
  | cons => simp [hread.parse_eq_error, hread'.parse_eq_error]

/-- **Spacing and notation do not matter.**  A source whose words are joined by single spaces, each
lambda sign and each dot in either notation, has tokens of the same kinds with the same names.  So
it is parsed where the source is, to the same term, and recovered to the same term with as many
faults. -/
theorem respelling_keeps_term (source : String) (words : List String)
    (h : List.Forall₂ Token.WrittenAs (tokenize source).dropLast words) :
    (tokenize (" ".intercalate words)).map (·.kind) = (tokenize source).map (·.kind) ∧
      ((tokenize (" ".intercalate words)).filter (·.kind = .identifier)).map (·.text) =
        ((tokenize source).filter (·.kind = .identifier)).map (·.text) ∧
      (∀ t, parse (" ".intercalate words) = .ok t ↔ parse source = .ok t) ∧
      ∃ t faults faults', recover source = (.ok t, faults) ∧
        recover (" ".intercalate words) = (.ok t, faults') ∧ faults'.length = faults.length := by
  rw [tokenize_dropLast] at h
  have halike : AlikeTokens (tokens source) (tokens (" ".intercalate words)) := by
    have hjoin := tokensFrom_join (fun x => spelled_of_mem_tokens) h 0
    have htext : (" ".intercalate words).toList = [' '].intercalate (words.map String.toList) := by
      simp [String.toList_intercalate]
    rwa [← htext] at hjoin
  have hwhole : AlikeTokens (tokenize source) (tokenize (" ".intercalate words)) :=
    List.rel_append halike (.cons ⟨rfl, fun hk => by cases hk⟩ .nil)
  exact ⟨hwhole.map_kind.symm, hwhole.map_text.symm, halike.parse_eq_ok_iff⟩

/-- An arrow after a name that ends in a minus sign, and a lambda sign in the other notation. -/
theorem respelling_keeps_term_arrow :
    List.Forall₂ Token.WrittenAs (tokenize "\\a--->(a-b)").dropLast
        ["λ", "a--", ".", "(", "a-b", ")"] ∧
      parse "λ a-- . ( a-b )" = .ok (.lam (some "a--") none (.var (some "a-b") none false)) := by
  have h : List.Forall₂ Token.WrittenAs (tokenize "\\a--->(a-b)").dropLast
      ["λ", "a--", ".", "(", "a-b", ")"] := by decide +kernel
  have htext : " ".intercalate ["λ", "a--", ".", "(", "a-b", ")"] = "λ a-- . ( a-b )" := by
    decide +kernel
  have hterm := (respelling_keeps_term _ _ h).2.2.1
  rw [htext] at hterm
  exact ⟨h, (hterm _).mpr (by decide +kernel)⟩

end Tromp
