import Mathlib.Data.List.TakeDrop
import Mathlib.Data.List.TakeWhile
import Tromp.Proofs.Arithmetic.Numerals
import Tromp.Svg.Lines

/-!
# Numbers in attributes

A document is read in two ways: a coordinate is the whole text of its attribute, a length is the
decimal that its attribute begins with, and a translation is cut out of the text of a transform.
For the text of a number the three agree.  Whatever the plain reader takes for a finite number is a
sign and an unsigned decimal, and the reader of lengths takes all of it (`Svg.length_eq`); and an
operand of a translation ends at the blank or the parenthesis behind it
(`Svg.translation_translate`).
-/

namespace Tromp

/-- The characters of a text that readers of numbers neither strip nor join nor refuse. -/
def isClean (c : Char) : Bool := !isBlank c && c != '_' && c != '%' && c != ',' && c != ')'

theorem isBlank_eq_false {c : Char} (h : isClean c = true) : isBlank c = false := by
  simp only [isClean, Bool.and_eq_true, Bool.not_eq_true'] at h
  exact h.1.1.1.1

theorem ne_of_isClean {c d : Char} (h : isClean c = true) (hd : isClean d = false) : c ≠ d := by
  intro heq
  rw [heq, hd] at h
  contradiction

theorem isClean_of_mem_numeralChars {c : Char} (h : c ∈ numeralChars) : isClean c = true := by
  have hall : numeralChars.all isClean = true := by decide
  exact List.all_eq_true.mp hall c h

variable {cs : List Char}

/-! ### The plain reader -/

/-- Nothing is dropped from a text that does not begin with what is dropped. -/
theorem dropWhile_eq_self {p : Char → Bool} (h : ∀ c ∈ cs, p c = false) : cs.dropWhile p = cs := by
  cases cs with
  | nil => rfl
  | cons c cs => simp [h c List.mem_cons_self]

/-- A text without blanks has none at its ends. -/
theorem stripBlanks_eq (h : ∀ c ∈ cs, isBlank c = false) : stripBlanks cs = cs := by
  have hreverse : ∀ c ∈ cs.reverse, isBlank c = false := by simpa using h
  rw [stripBlanks, dropWhile_eq_self h, dropWhile_eq_self hreverse, List.reverse_reverse]

namespace Reading

theorem trim_eq (h : ∀ c ∈ cs, isBlank c = false) : trim cs = cs := by
  have hpadding : ∀ c ∈ cs, isPadding c = false := by
    intro c hc
    simp [isPadding, h c hc]
  have hreverse : ∀ c ∈ cs.reverse, isPadding c = false := by simpa using hpadding
  rw [trim, dropWhile_eq_self hpadding, dropWhile_eq_self hreverse, List.reverse_reverse]

theorem joinDigits_eq (h : ∀ c ∈ cs, c ≠ '_') : joinDigits cs = some cs := by
  fun_induction joinDigits cs with
  | case1 => rfl
  | case2 => exact absurd rfl (h '_' (by simp))
  | case3 => exact absurd rfl (h '_' (by simp))
  | case4 => exact absurd rfl (h '_' (by simp))
  | case5 c rest _ _ ih =>
      rw [ih fun d hd => h d (List.mem_cons_of_mem _ hd)]
      rfl

/-- The sign of a text is at most one character before the rest of it. -/
theorem exists_sign (cs : List Char) :
    ∃ signs, signs ∈ [[], ['+'], ['-']] ∧ cs = signs ++ (sign cs).2 := by
  unfold sign
  split
  · exact ⟨['-'], by simp, rfl⟩
  · exact ⟨['+'], by simp, rfl⟩
  · exact ⟨[], by simp, rfl⟩

end Reading

open Reading

/-- What is read as a finite number is a sign and an unsigned decimal. -/
theorem exists_unsigned {s : String} {x : Float} (hclean : ∀ c ∈ s.toList, isClean c = true)
    (hread : readDouble? s = some x) (hfinite : x.isFinite = true) :
    ∃ signs body, s.toList = signs ++ body ∧ signs ∈ [[], ['+'], ['-']] ∧
      (unsigned? body).isSome := by
  have hinfinite : (1.0 / 0.0 : Float).isFinite = false ∧
      (-(1.0 / 0.0 : Float)).isFinite = false := ⟨rfl, rfl⟩
  have hnan : (0.0 / 0.0 : Float).isFinite = false ∧ (-(0.0 / 0.0 : Float)).isFinite = false :=
    ⟨rfl, rfl⟩
  unfold readDouble? at hread
  rw [trim_eq fun c hc => isBlank_eq_false (hclean c hc)] at hread
  obtain ⟨signs, hsigns, heq⟩ := exists_sign s.toList
  generalize sign s.toList = signed at hread heq
  obtain ⟨minus, body⟩ := signed
  refine ⟨signs, body, heq, hsigns, ?_⟩
  have hjoin : joinDigits body = some body := by
    refine joinDigits_eq ?_
    intro c hc
    have hmem : c ∈ s.toList := by
      rw [heq]
      exact List.mem_append_right _ hc
    exact ne_of_isClean (hclean c hmem) (by decide)
  obtain ⟨magnitude, hmagnitude, hx⟩ := Option.map_eq_some_iff.mp hread
  -- The names stand for values that are not finite, with either sign.
  by_cases hinf : String.ofList (lower body) = "inf" ∨ String.ofList (lower body) = "infinity"
  · simp only [hinf, if_true] at hmagnitude
    obtain rfl := Option.some.inj hmagnitude
    rw [← hx] at hfinite
    cases minus <;> simp [hinfinite] at hfinite
  · by_cases hword : String.ofList (lower body) = "nan"
    · simp only [hword, String.reduceEq, or_self, if_true, if_false] at hmagnitude
      obtain rfl := Option.some.inj hmagnitude
      rw [← hx] at hfinite
      cases minus <;> simp [hnan] at hfinite
    · simp only [hinf, hword, if_false, hjoin, Option.bind_some] at hmagnitude
      exact Option.isSome_of_eq_some hmagnitude

/-- An empty text writes no number. -/
theorem toList_ne_nil {s : String} {x : Float} (h : readDouble? s = some x) : s.toList ≠ [] := by
  intro hnil
  obtain rfl := String.toList_eq_nil_iff.mp hnil
  have hnone : readDouble? "" = none := by decide
  exact absurd (h.symm.trans hnone) (Option.some_ne_none x)

/-- A run of characters is cut off where it ends. -/
theorem span_append {p : Char → Bool} {ds rest : List Char} {c : Char}
    (hds : ∀ d ∈ ds, p d = true) (hc : p c = false) :
    (ds ++ c :: rest).span p = (ds, c :: rest) := by
  rw [List.span_eq_takeWhile_dropWhile, List.takeWhile_append_of_pos hds,
    List.dropWhile_append_of_pos hds]
  simp [hc]

namespace Svg

/-- What may follow the digits of an unsigned decimal is an exponent written in full. -/
theorem exponentAt_eq {rest : List Char} {x : Float} {value : Int → Float}
    (h : (match rest with
      | [] => some x
      | c :: more => if c = 'e' ∨ c = 'E' then (exponent? more).map value else none).isSome) :
    exponentAt rest = rest := by
  cases rest with
  | nil => rfl
  | cons c more =>
      by_cases hc : c = 'e' ∨ c = 'E'
      · simp only [hc, if_true, Option.isSome_map] at h
        have hdigits : (sign more).2.isEmpty = false ∧
            (sign more).2.takeWhile isDigit = (sign more).2 := by
          unfold exponent? at h
          by_cases hall : (sign more).2.isEmpty || !(sign more).2.all isDigit
          · simp [hall] at h
          · simp only [Bool.or_eq_true, Bool.not_eq_true', not_or, Bool.not_eq_false,
              List.all_eq_true] at hall
            exact ⟨by simpa using hall.1, List.takeWhile_eq_self_iff.mpr hall.2⟩
        have hc' : (c = 'e' || c = 'E') = true := by simpa using hc
        simp only [exponentAt, hc', if_true]
        unfold sign at hdigits
        split at hdigits <;> simp_all
      · simp [hc] at h

/-- Of an unsigned decimal behind a sign the longest decimal at its beginning is all of it. -/
theorem leadingDecimal?_append {signs body : List Char} (hsigns : signs ∈ [[], ['+'], ['-']])
    (hbody : (unsigned? body).isSome) : leadingDecimal? (signs ++ body) = some (signs ++ body) := by
  have hsign : (∀ c ∈ signs, (c == '+' || c == '-') = true) ∧ ¬ 1 < signs.length := by
    simp only [List.mem_cons, List.not_mem_nil, or_false] at hsigns
    rcases hsigns with rfl | rfl | rfl <;> simp
  have hspan : (signs ++ body).span (fun c => c == '+' || c == '-') = (signs, body) := by
    cases body with
    | nil => exact absurd hbody (by decide)
    | cons c rest =>
        refine span_append hsign.1 ?_
        -- A sign is neither a digit nor a point, so no decimal begins with one.
        by_contra hc
        have hstart : c ≠ '.' ∧ isDigit c = false := by
          simp only [Bool.not_eq_false, Bool.or_eq_true, beq_iff_eq] at hc
          rcases hc with rfl | rfl <;> decide
        simp [unsigned?, List.span_eq_takeWhile_dropWhile, hstart] at hbody
  have hwhole := List.takeWhile_append_dropWhile (p := isDigit) (l := body)
  unfold leadingDecimal?
  rw [hspan]
  unfold unsigned? at hbody
  simp only [List.span_eq_takeWhile_dropWhile] at hbody ⊢
  generalize body.takeWhile isDigit = whole at hbody hwhole ⊢
  generalize body.dropWhile isDigit = rest at hbody hwhole ⊢
  subst hwhole
  cases rest with
  | nil =>
      have hne : whole ≠ [] := by simpa using hbody
      simp [Nat.not_lt.mp hsign.2, hne, exponentAt]
  | cons c more =>
      by_cases hpoint : c = '.'
      · subst hpoint
        have hdigits := List.takeWhile_append_dropWhile (p := isDigit) (l := more)
        simp only at hbody ⊢
        by_cases hnone : whole.isEmpty && (more.takeWhile isDigit).isEmpty
        · simp [hnone] at hbody
        · rw [if_neg hnone] at hbody
          simp [hnone, hsign.2, exponentAt_eq hbody]
      · by_cases hempty : whole = []
        · simp [hpoint, hempty] at hbody
        · simp [hpoint, hempty] at hbody
          have hexponent : exponentAt (c :: more) = c :: more := exponentAt_eq (x := 0) hbody
          simp [hpoint, hempty, hexponent, Nat.not_lt.mp hsign.2]

/-- A length that is written as a positive number is that number. -/
theorem length_eq {s : String} {x : Float} (default : Number)
    (hclean : ∀ c ∈ s.toList, isClean c = true) (hread : readDouble? s = some x) (hpos : 0.0 < x)
    (hfinite : x.isFinite = true) : length (some s) default = .real x := by
  have hpercent : s.toList.contains '%' = false := by
    by_contra h
    simp only [Bool.not_eq_false, List.contains_iff_mem] at h
    exact absurd (hclean '%' h) (by decide)
  have hstrip : stripBlanks s.toList = s.toList :=
    stripBlanks_eq fun c hc => isBlank_eq_false (hclean c hc)
  obtain ⟨signs, body, heq, hsigns, hbody⟩ := exists_unsigned hclean hread hfinite
  have hleading : leadingDecimal? s.toList = some s.toList := by
    rw [heq]
    exact leadingDecimal?_append hsigns hbody
  unfold length
  simp [-List.contains_eq_mem, hpercent, hstrip, hleading, hread, hpos, hfinite]

/-! ### Translations -/

theorem isOperandChar_of_isClean {c : Char} (h : isClean c = true) : isOperandChar c = true := by
  have hcomma := ne_of_isClean (d := ',') h (by decide)
  have hclosing := ne_of_isClean (d := ')') h (by decide)
  simp [isOperandChar, isBlank_eq_false h, hcomma, hclosing]

/-- A translation by two operands. -/
theorem translationAt?_eq {a b : List Char} (ha : ∀ c ∈ a, isClean c = true)
    (hb : ∀ c ∈ b, isClean c = true) (hane : a ≠ []) (hbne : b ≠ []) :
    translationAt? ("translate(".toList ++ (a ++ ' ' :: (b ++ [')']))) = some ((a, some b), []) := by
  have hstart : (a ++ ' ' :: (b ++ [')'])).dropWhile isBlank = a ++ ' ' :: (b ++ [')']) := by
    cases a with
    | nil => exact absurd rfl hane
    | cons c cs => simp [isBlank_eq_false (ha c List.mem_cons_self)]
  have hfirst : (a ++ ' ' :: (b ++ [')'])).span isOperandChar = (a, ' ' :: (b ++ [')'])) := by
    exact span_append (fun c hc => isOperandChar_of_isClean (ha c hc)) (by decide)
  have hgap : ([' '] ++ (b ++ [')'])).span (fun c => c == ',' || isBlank c) =
      ([' '], b ++ [')']) := by
    cases b with
    | nil => exact absurd rfl hbne
    | cons c cs =>
        have hc := hb c List.mem_cons_self
        have hcomma : c ≠ ',' := ne_of_isClean hc (by decide)
        refine span_append ?_ (by simp [hcomma, isBlank_eq_false hc])
        intro d hd
        obtain rfl := List.mem_singleton.mp hd
        decide
  have hsecond : (b ++ [')']).span isOperandChar = (b, [')']) := by
    exact span_append (fun c hc => isOperandChar_of_isClean (hb c hc)) (by decide)
  have hword : "translate(".toList.isPrefixOf ("translate(".toList ++ (a ++ ' ' :: (b ++ [')']))) =
      true := by
    simp
  have hend : [')'].dropWhile isBlank = [')'] := by decide
  rw [List.singleton_append] at hgap
  unfold translationAt?
  simp only [hword, List.drop_left, hstart, hfirst, hgap, hsecond]
  cases a with
  | nil => exact absurd rfl hane
  | cons c cs => simp [hbne, hend]

/-- There is no translation in what belongs to the one before. -/
theorem translationsIn_length (cs : List Char) : translationsIn cs.length cs = [] := by
  induction cs with
  | nil => rfl
  | cons c cs ih => exact ih

/-- **A translation by two printed numbers** is the one that was printed, up to the sign of zeros. -/
theorem translation_translate {a b : String} {x y : Float}
    (ha : ∀ c ∈ a.toList, isClean c = true) (hb : ∀ c ∈ b.toList, isClean c = true)
    (hx : readDouble? a = some x) (hy : readDouble? b = some y) :
    translation (some ("translate(" ++ a ++ " " ++ b ++ ")")) =
      .ok (.real (0.0 + x), .real (0.0 + y)) := by
  have hat := translationAt?_eq ha hb (toList_ne_nil hx) (toList_ne_nil hy)
  have htext : ("translate(" ++ a ++ " " ++ b ++ ")").toList =
      "translate(".toList ++ (a.toList ++ ' ' :: (b.toList ++ [')'])) := by simp
  have hone : translationsIn 0 ("translate(" ++ a ++ " " ++ b ++ ")").toList =
      [(a.toList, some b.toList)] := by
    rw [htext]
    generalize "translate(".toList ++ (a.toList ++ ' ' :: (b.toList ++ [')'])) = cs at hat
    cases cs with
    | nil =>
        have hnone : translationAt? [] = none := by decide
        exact absurd (hat.symm.trans hnone) (Option.some_ne_none _)
    | cons c cs => simp [translationsIn, hat, translationsIn_length]
  unfold translation
  simp only [Option.getD_some, hone]
  simp only [List.foldlM_cons, List.foldlM_nil, parseDouble, String.ofList_toList, hx, hy]
  rfl

end Svg

end Tromp
