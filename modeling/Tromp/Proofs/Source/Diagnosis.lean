import Mathlib.Control.Monad.Basic
import Tromp.Proofs.Source.Agreement
import Tromp.Proofs.Source.Tiling

/-!
# Marks below a token

A diagnosis repeats the source and adds a row of marks for the offending token: one for each of its
characters, and a single one at the end of the text.  The marks are moved to the right by the
position of the token.  That position counts from the beginning of the text, while columns begin
anew in every row, and so the marks stand below the token exactly if the source has no line break
(`diagnosis_marks_token`).

1.  Every fault names a token of its source: what a parser has not read yet is always an end of the
    row of tokens (`Reads.consumes`).
2.  The token does not reach past the source, and so nothing is cut off in the diagnosis
    (`toList_diagnosis`).
3.  A place of a text is found in its rows again (`Spot.charAt?_spotAt`), and its column is its
    position exactly in the first row (`spotAt_of_not_mem`, `row_eq_zero_of_column`).
-/

namespace Tromp

/-! ### Faults name tokens -/

/-- What is left of some tokens, and what is still to be read at each snag, are ends of them, the
later ones ends of the earlier ones. -/
structure Consumes (ts us : List Token) (fs : List Snag) : Prop where
  rest : us <:+ ts
  snags : ∀ s ∈ fs, s.rest <:+ ts
  ordered : fs.Pairwise fun s s' => s'.rest <:+ s.rest
  after : ∀ s ∈ fs, us <:+ s.rest

namespace Consumes

variable {ts us vs : List Token} {fs gs : List Snag}

/-- Without a snag there is only what is left. -/
theorem of_suffix (h : us <:+ ts) : Consumes ts us [] := ⟨h, by simp, .nil, by simp⟩

theorem refl (ts : List Token) : Consumes ts ts [] := of_suffix (List.suffix_refl ts)

theorem trans (h : Consumes ts us fs) (h' : Consumes us vs gs) : Consumes ts vs (fs ++ gs) := by
  refine ⟨h'.rest.trans h.rest, ?_, List.pairwise_append.mpr ⟨h.ordered, h'.ordered, ?_⟩, ?_⟩
  · intro s hs
    rcases List.mem_append.mp hs with hs | hs
    · exact h.snags s hs
    · exact (h'.snags s hs).trans h.rest
  · intro s hs s' hs'
    exact (h'.snags s' hs').trans (h.after s hs)
  · intro s hs
    rcases List.mem_append.mp hs with hs | hs
    · exact h'.rest.trans (h.after s hs)
    · exact h'.after s hs

theorem cons (x : Token) (h : Consumes ts us fs) : Consumes (x :: ts) us fs := by
  have hts : ts <:+ x :: ts := List.suffix_cons x ts
  exact ⟨h.rest.trans hts, fun s hs => (h.snags s hs).trans hts, h.ordered, h.after⟩

theorem snag (c : Complaint) (h : Consumes ts us fs) : Consumes ts us (⟨c, ts⟩ :: fs) := by
  refine ⟨h.rest, ?_, List.pairwise_cons.mpr ⟨h.snags, h.ordered⟩, ?_⟩
  · intro s hs
    rcases List.mem_cons.mp hs with rfl | hs
    · exact List.suffix_refl ts
    · exact h.snags s hs
  · intro s hs
    rcases List.mem_cons.mp hs with rfl | hs
    · exact h.rest
    · exact h.after s hs

end Consumes

theorem Takes.consumes {kind : TokenKind} {c : Complaint} {x : Option Token} {ts us : List Token}
    {fs : List Snag} (h : Takes kind c ts x fs us) : Consumes ts us fs := by
  cases h with
  | present => exact (Consumes.refl us).cons _
  | absent => exact (Consumes.refl ts).snag c

/-- **Reading goes on through the tokens**, and complains on the way. -/
theorem Reads.consumes {k : Phrase} {ts us : List Token} {t : Term} {fs : List Snag}
    (h : Reads k ts t fs us) : Consumes ts us fs := by
  induction h with
  | abstraction _ _ ih => exact ih.cons _
  | expression _ _ ih => exact ih
  | binding hname hdot _ ih => exact (hname.consumes.trans hdot.consumes).trans ih
  | application _ _ ihf iha => exact ihf.trans iha
  | noArgument => exact .refl _
  | argument _ _ _ iha ihr => exact iha.trans ihr
  | name => exact (Consumes.refl _).cons _
  | group _ _ hclose ih => exact (ih.trans hclose.consumes).cons _
  | bare _ _ ih => exact (ih.cons _).snag _
  | skipped => exact ((Consumes.refl _).cons _).snag _
  | missing => exact (Consumes.refl _).snag _
  | finished => exact .refl _
  | resumed _ _ _ _ iha ihr => exact ((iha.trans ihr).cons _).snag _
  | discarded _ _ _ ih => exact (ih.cons _).snag _
  | whole _ _ ihe ihr => exact ihe.trans ihr

/-- A fault of a source is about one of its tokens. -/
theorem exists_token_of_fault {source : String} {fault : SyntaxFault}
    (h : parse source = .error fault ∨ fault ∈ (recover source).2) :
    ∃ x ∈ tokenize source, fault = .atToken fault.complaint x source := by
  have hmem : fault ∈ (recover source).2 := by
    obtain ⟨t, faults, hrecover, -, -, hfirst⟩ := recover_agrees_with_parse source
    rcases h with h | h
    · rw [hrecover]
      exact List.mem_of_mem_head? ((hfirst fault).mp h)
    · exact h
  obtain ⟨t, fs, hreads⟩ := Reads.exists_whole (tokens source)
  rw [hreads.recover_eq] at hmem
  obtain ⟨s, hs, rfl⟩ := List.mem_map.mp hmem
  refine ⟨s.rest.headD (finishToken source), ?_, rfl⟩
  cases hrest : s.rest with
  | nil => exact mem_tokenize_iff.mpr (.inr rfl)
  | cons x rest =>
      have hx : x ∈ s.rest := by simp [hrest]
      exact mem_tokenize_iff.mpr (.inl ((hreads.consumes.snags s hs).subset hx))

/-! ### The text of a diagnosis -/

/-- No token goes on in the next row. -/
theorem Token.Spelled.newline_not_mem {x : Token} (h : x.Spelled) : '\n' ∉ x.text.toList := by
  intro hmem
  cases hk : x.kind <;> simp only [Spelled, hk] at h
  case lambda =>
    obtain ⟨c, hc, ht⟩ := h
    obtain rfl : '\n' = c := by simpa [ht] using hmem
    exact absurd hc (by decide)
  case dot => rcases h with ht | ht <;> simp [ht] at hmem
  case identifier => exact absurd (h.2 '\n' hmem) (by decide)
  case opening | closing => simp [h] at hmem

/-- The number of marks for a token. -/
def Token.markCount (x : Token) : Nat := max 1 x.text.length

theorem Token.markCount_pos (x : Token) : 0 < x.markCount := Nat.le_max_left 1 x.text.length

/-- The row of marks for a token. -/
def Token.markRow (x : Token) : List Char :=
  List.replicate (x.position + 2) ' ' ++ '^' :: List.replicate (x.markCount - 1) '~'

theorem Token.newline_not_mem_markRow (x : Token) : '\n' ∉ x.markRow := by
  simp [markRow]

/-- The source, indented, and the row of marks. -/
def reportOn (source : String) (x : Token) : List Char :=
  ' ' :: ' ' :: source.toList ++ '\n' :: x.markRow

section Token

variable {source : String} {x : Token}

/-- No token reaches past the source, and the mark for its end stands just after it. -/
theorem position_add_markCount_le (hx : x ∈ tokenize source) :
    x.position + x.markCount ≤ source.length + 1 := by
  rcases mem_tokenize_iff.mp hx with hx | rfl
  · have hbounds := (cut_tokens source).bounds hx
    have hpos := (spelled_of_mem_tokens hx).length_pos
    rw [Token.stop, String.length_toList] at hbounds
    rw [Token.markCount]
    omega
  · simp [finishToken, Token.markCount]

/-- Slices that meet make up the whole. -/
theorem slice_append_slice_append {α : Type} {start stop : Nat} (h : start ≤ stop) (xs : List α) :
    slice 0 (start : Int) xs ++ (slice (start : Int) (stop : Int) xs ++
      slice (stop : Int) (xs.length : Int) xs) = xs := by
  have hzero : slice 0 (start : Int) xs = xs.take start := slice_ofNat 0 start xs
  have hmeet := List.take_append_drop start (xs.take stop)
  rw [List.take_take, Nat.min_eq_left h] at hmeet
  rw [hzero, slice_ofNat, slice_ofNat, List.take_length, ← List.append_assoc, hmeet,
    List.take_append_drop]

/-- **Nothing is cut off in the diagnosis of a token.** -/
theorem toList_diagnosis (hx : x ∈ tokenize source) (c : Complaint) :
    (SyntaxFault.atToken c x source).diagnosis.toList = reportOn source x := by
  have hmarks := position_add_markCount_le hx
  have hpos := x.markCount_pos
  rw [← String.length_toList (s := source)] at hmarks
  have hstart : min (x.position : Int) source.toList.length = x.position := by omega
  have hstop : min (max ((x.position : Int) + x.text.length) (x.position + 1))
      (source.toList.length + 1) = (x.position + x.markCount : Nat) := by
    rw [Token.markCount] at hmarks ⊢
    omega
  have hcount : (((x.position + x.markCount : Nat) : Int) - x.position - 1).toNat =
      x.markCount - 1 := by omega
  have hwhole := slice_append_slice_append (Nat.le_add_right x.position x.markCount) source.toList
  simp only [SyntaxFault.diagnosis, SyntaxFault.diagnosisWith, SyntaxFault.atToken, hstart, hstop,
    hcount, id, String.toList_append, String.toList_ofList, Int.toNat_natCast]
  have hreport : reportOn source x = [' ', ' '] ++ source.toList ++ (['\n', ' ', ' '] ++
      (List.replicate x.position ' ' ++ '^' :: List.replicate (x.markCount - 1) '~')) := rfl
  have hindent : "  ".toList = [' ', ' '] := by simp
  have hbreak : "\n  ".toList = ['\n', ' ', ' '] := by simp
  -- The three slices of the source come together again.
  calc _ = "  ".toList ++ (slice 0 (x.position : Int) source.toList ++
          (slice (x.position : Int) (x.position + x.markCount : Nat) source.toList ++
            slice (x.position + x.markCount : Nat) (source.toList.length : Int) source.toList)) ++
        ("\n  ".toList ++ (List.replicate x.position ' ' ++
          '^' :: List.replicate (x.markCount - 1) '~')) := by simp only [List.append_assoc]
    _ = _ := by rw [hwhole, hreport, hindent, hbreak]

end Token

/-! ### Rows and columns -/

/-- Where a character stands in a text that is split into rows. -/
structure Spot where
  row : Nat
  column : Nat
deriving DecidableEq

/-- The spot of a place of a text, whose rows end with line breaks. -/
def spotAt : List Char → Nat → Spot
  | [], i => ⟨0, i⟩
  | _ :: _, 0 => ⟨0, 0⟩
  | c :: cs, i + 1 =>
    let s := spotAt cs i
    if c = '\n' then ⟨s.row + 1, s.column⟩ else if s.row = 0 then ⟨0, s.column + 1⟩ else s

/-- What stands at a spot of some rows. -/
def Spot.charAt? (s : Spot) (rows : List (List Char)) : Option Char :=
  rows[s.row]?.bind (·[s.column]?)

section Rows

variable {c : Char} {cs : List Char} {i : Nat}

/-- **What stands in a text stands in its rows.** -/
theorem Spot.charAt?_spotAt (hi : cs[i]? = some c) (hc : c ≠ '\n') :
    (spotAt cs i).charAt? (cs.splitOn '\n') = some c := by
  induction cs generalizing i with
  | nil => simp at hi
  | cons d cs ih =>
      obtain ⟨row, rows, hrows⟩ := List.exists_cons_of_ne_nil (List.splitOn_ne_nil '\n' cs)
      rw [List.splitOn_cons_eq_if_modifyHead]
      cases i with
      | zero =>
          obtain rfl : d = c := by simpa using hi
          simp [charAt?, spotAt, hc, hrows]
      | succ i =>
          have hrest := ih (by simpa using hi)
          by_cases hd : d = '\n'
          · simpa [charAt?, spotAt, hd] using hrest
          · by_cases hrow : (spotAt cs i).row = 0
            · simpa [charAt?, spotAt, hd, hrow, hrows] using hrest
            · obtain ⟨r, hr⟩ := Nat.exists_eq_succ_of_ne_zero hrow
              simpa [charAt?, spotAt, hd, hr, hrows] using hrest

/-- In the first row columns are positions. -/
theorem spotAt_of_not_mem (h : '\n' ∉ cs.take i) : spotAt cs i = ⟨0, i⟩ := by
  induction cs generalizing i with
  | nil => rfl
  | cons c cs ih =>
      cases i with
      | zero => rfl
      | succ i =>
          rw [List.take_succ_cons, List.mem_cons, not_or] at h
          simp [spotAt, ih h.2, Ne.symm h.1]

/-- What stands after a line break begins anew in a lower row. -/
theorem spotAt_append_newline (cs ds : List Char) (i : Nat) :
    spotAt (cs ++ '\n' :: ds) (cs.length + (i + 1)) =
      ⟨cs.count '\n' + 1 + (spotAt ds i).row, (spotAt ds i).column⟩ := by
  induction cs with
  | nil => simp [spotAt, Nat.add_comm]
  | cons c cs ih =>
      rw [List.length_cons, Nat.add_right_comm]
      by_cases hc : c = '\n'
      · simp [spotAt, hc, ih]
        omega
      · simp [spotAt, hc, ih]

theorem column_spotAt_le (cs : List Char) (i : Nat) : (spotAt cs i).column ≤ i := by
  induction cs generalizing i with
  | nil => exact Nat.le_refl i
  | cons c cs ih =>
      cases i with
      | zero => exact Nat.le_refl 0
      | succ i =>
          have hrest := ih i
          grind [spotAt]

/-- Only in the first row columns are positions. -/
theorem row_eq_zero_of_column (h : (spotAt cs i).column = i) : (spotAt cs i).row = 0 := by
  induction cs generalizing i with
  | nil => rfl
  | cons c cs ih =>
      cases i with
      | zero => rfl
      | succ i =>
          have hrest := column_spotAt_le cs i
          by_cases hc : c = '\n'
          · -- After a line break the column is too small by the first row.
            simp only [spotAt, hc, if_true] at h
            omega
          · grind [spotAt]

end Rows

/-! ### What a diagnosis shows -/

/-- The spot just below a spot. -/
def Spot.below (s : Spot) : Spot := ⟨s.row + 1, s.column⟩

/-- The marks, which a report ends with, stand just below the characters that they are for, and the
mark for the end of the text just below the place after the last character. -/
def MarksBelow (report : List Char) (x : Token) : Prop :=
  ∀ k < x.markCount, spotAt report (report.length - x.markCount + k) =
    (spotAt report (x.position + 2 + k)).below

/-- What a report on a token shows of a source. -/
structure IsReport (report : List Char) (x : Token) (source : String) : Prop where
  /-- The marks stand in a row of their own, below those of the source. -/
  rows_eq : report.splitOn '\n' = (' ' :: ' ' :: source.toList).splitOn '\n' ++ [x.markRow]
  /-- The token stands in these rows. -/
  charAt?_eq : ∀ k < x.text.length,
    (spotAt report (x.position + 2 + k)).charAt? (report.splitOn '\n') = x.text.toList[k]?
  /-- The marks stand below the token exactly if the source is a single row. -/
  marksBelow_iff : MarksBelow report x ↔ '\n' ∉ source.toList

section Report

variable {source : String} {x : Token} {k : Nat}

theorem splitOn_reportOn (source : String) (x : Token) :
    (reportOn source x).splitOn '\n' =
      (' ' :: ' ' :: source.toList).splitOn '\n' ++ [x.markRow] := by
  rw [reportOn, List.splitOn_append_cons_self,
    List.splitOn_eq_singleton x.newline_not_mem_markRow]

theorem charAt?_reportOn (hx : x ∈ tokenize source) (hk : k < x.text.length) :
    (spotAt (reportOn source x) (x.position + 2 + k)).charAt? ((reportOn source x).splitOn '\n') =
      x.text.toList[k]? := by
  rcases mem_tokenize_iff.mp hx with hx | rfl
  · obtain ⟨before, rest, hsource, hposition, -, -⟩ := exists_toList_eq hx
    rw [← String.length_toList] at hk
    have hplace : x.position + 2 + k = (' ' :: ' ' :: before).length + k := by
      rw [hposition, List.length_cons, List.length_cons]
    have hreport : reportOn source x = ' ' :: ' ' :: before ++
        (x.text.toList ++ (rest ++ '\n' :: x.markRow)) := by
      rw [reportOn, hsource]
      simp only [List.cons_append, List.append_assoc]
    have hchar : (reportOn source x)[x.position + 2 + k]? = some x.text.toList[k] := by
      rw [hplace, hreport, List.getElem?_append_right (Nat.le_add_right _ k),
        Nat.add_sub_cancel_left, List.getElem?_append_left hk, List.getElem?_eq_getElem hk]
    rw [List.getElem?_eq_getElem hk]
    refine Spot.charAt?_spotAt hchar ?_
    intro hnewline
    exact (spelled_of_mem_tokens hx).newline_not_mem (hnewline ▸ List.getElem_mem hk)
  · simp [finishToken] at hk

/-- The marks stand in the row after that of the last line break, as far to the right as their token
stands in the text. -/
theorem spotAt_mark (source : String) (x : Token) (k : Nat) :
    spotAt (reportOn source x) ((reportOn source x).length - x.markCount + k) =
      ⟨source.toList.count '\n' + 1, x.position + 2 + k⟩ := by
  have hpos := x.markCount_pos
  have hplace : (reportOn source x).length - x.markCount + k =
      (' ' :: ' ' :: source.toList).length + (x.position + 2 + k + 1) := by
    simp only [reportOn, Token.markRow, List.length_append, List.length_cons,
      List.length_replicate]
    omega
  have hfree : '\n' ∉ x.markRow.take (x.position + 2 + k) := by
    intro hmem
    exact x.newline_not_mem_markRow (List.mem_of_mem_take hmem)
  rw [hplace, reportOn, spotAt_append_newline, spotAt_of_not_mem hfree]
  simp

/-- **The marks stand below the token exactly if the source is a single row.** -/
theorem marksBelow_reportOn_iff (hx : x ∈ tokenize source) :
    MarksBelow (reportOn source x) x ↔ '\n' ∉ source.toList := by
  rw [← List.count_eq_zero]
  constructor
  · intro hbelow
    have hfirst := (spotAt_mark source x 0).symm.trans (hbelow 0 x.markCount_pos)
    obtain ⟨hrow, hcolumn⟩ := Spot.mk.inj hfirst
    have hzero := row_eq_zero_of_column hcolumn.symm
    omega
  · intro hsource k hk
    have hmarks := position_add_markCount_le hx
    have hplace : x.position + 2 + k ≤ (' ' :: ' ' :: source.toList).length := by
      simp only [List.length_cons, String.length_toList]
      omega
    have hfree : '\n' ∉ (reportOn source x).take (x.position + 2 + k) := by
      rw [reportOn, List.take_append_of_le_length hplace]
      intro hmem
      have hnewline : '\n' ∈ source.toList := by simpa using List.mem_of_mem_take hmem
      exact List.count_eq_zero.mp hsource hnewline
    rw [spotAt_mark, spotAt_of_not_mem hfree, hsource]
    rfl

end Report

/-- **A diagnosis shows the offending token.** -/
theorem diagnosis_marks_token {source : String} {fault : SyntaxFault}
    (h : parse source = .error fault ∨ fault ∈ (recover source).2) :
    ∃ x ∈ tokenize source, fault = .atToken fault.complaint x source ∧
      IsReport fault.diagnosis.toList x source := by
  obtain ⟨x, hx, heq⟩ := exists_token_of_fault h
  refine ⟨x, hx, heq, ?_⟩
  rw [heq, toList_diagnosis hx]
  exact ⟨splitOn_reportOn source x, fun k => charAt?_reportOn hx, marksBelow_reportOn_iff hx⟩

/-- The mark for a parenthesis that begins the second row stands in the fifth column. -/
theorem diagnosis_marks_token_second_row :
    parse "x\n)" = .error ⟨.trailingToken, "rparen", ")", 2, some "x\n)"⟩ ∧
      (SyntaxFault.mk .trailingToken "rparen" ")" 2 (some "x\n)")).diagnosis = "  x\n)\n    ^" ∧
      ∃ x ∈ tokenize "x\n)",
        SyntaxFault.mk .trailingToken "rparen" ")" 2 (some "x\n)") =
          .atToken .trailingToken x "x\n)" ∧
        IsReport (SyntaxFault.mk .trailingToken "rparen" ")" 2 (some "x\n)")).diagnosis.toList x
          "x\n)" := by
  have hparse : parse "x\n)" = .error ⟨.trailingToken, "rparen", ")", 2, some "x\n)"⟩ := by
    decide +kernel
  exact ⟨hparse, by decide +kernel, diagnosis_marks_token (.inl hparse)⟩

end Tromp
