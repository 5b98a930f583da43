/-!
# Blanks and line ends

Which characters count as blank, and which end a line.  Both sets are the Unicode ones, and both
contain the four information separators U+001C to U+001F, the last of which ends no line.
-/

namespace Tromp

/-- Whether a character is blank: the white space of Unicode and the information separators. -/
def isBlank (c : Char) : Bool :=
  let n := c.toNat
  (9 ≤ n && n ≤ 13) || (0x1C ≤ n && n ≤ 0x20) || n == 0x85 || n == 0xA0 || n == 0x1680 ||
    (0x2000 ≤ n && n ≤ 0x200A) || n == 0x2028 || n == 0x2029 || n == 0x202F || n == 0x205F ||
    n == 0x3000

/-- Whether a character ends a line. -/
def isLineEnd (c : Char) : Bool :=
  let n := c.toNat
  (10 ≤ n && n ≤ 13) || (0x1C ≤ n && n ≤ 0x1E) || n == 0x85 || n == 0x2028 || n == 0x2029

/-- A text without the blanks at its ends. -/
def stripBlanks (cs : List Char) : List Char :=
  ((cs.dropWhile isBlank).reverse.dropWhile isBlank).reverse

/-- The lines of a text, without their ends.  A text that ends in a line end has no empty line
after it. -/
def splitLines (cs : List Char) : List (List Char) := go cs [] false
where
  /-- Collects the line that has been begun, in reverse. -/
  go : List Char → List Char → Bool → List (List Char)
    | [], line, begun => if begun then [line.reverse] else []
    | '\r' :: '\n' :: rest, line, _ => line.reverse :: go rest [] false
    | c :: rest, line, _ =>
      if isLineEnd c then line.reverse :: go rest [] false else go rest (c :: line) true

/-- Every character that core counts as white space is blank. -/
theorem isBlank_of_isWhitespace {c : Char} (h : c.isWhitespace = true) : isBlank c = true := by
  simp only [Char.isWhitespace, Bool.or_eq_true, decide_eq_true_eq] at h
  rcases h with ((h | h) | h) | h <;> subst h <;> decide

end Tromp
