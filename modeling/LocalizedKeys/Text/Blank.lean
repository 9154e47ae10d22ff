/-!
# White space

Two sets of white space are in use. `isSpace` is Unicode's, and decides what is trimmed from a
text; `isLayout` holds the four characters that separate declarations. The second is part of
the first.
-/

namespace LocalizedKeys.Text

/-- White space of any kind, line and field separators included. -/
def isSpace (c : Char) : Bool :=
  let n := c.toNat
  (9 ≤ n && n ≤ 13) || (28 ≤ n && n ≤ 32) || n == 0x85 || n == 0xA0 || n == 0x1680
    || (0x2000 ≤ n && n ≤ 0x200A) || n == 0x2028 || n == 0x2029 || n == 0x202F
    || n == 0x205F || n == 0x3000

/-- A space or a tab. -/
def isBlank (c : Char) : Bool := c == ' ' || c == '\t'

/-- A line feed or a carriage return. -/
def isLineEnd (c : Char) : Bool := c == '\n' || c == '\r'

/-- The white space that may stand between declarations. -/
def isLayout (c : Char) : Bool := isBlank c || isLineEnd c

theorem isSpace_of_isLayout {c : Char} (h : isLayout c) : isSpace c := by
  simp only [isLayout, isBlank, isLineEnd, Bool.or_eq_true, beq_iff_eq] at h
  rcases h with (rfl | rfl) | rfl | rfl <;> rfl

theorem isLayout_of_isBlank {c : Char} (h : isBlank c) : isLayout c := by
  rw [isLayout, h, Bool.true_or]

theorem isSpace_of_isBlank {c : Char} (h : isBlank c) : isSpace c :=
  isSpace_of_isLayout (isLayout_of_isBlank h)

/-- Drops the characters of a class from the end. -/
def dropWhileEnd (p : Char → Bool) (cs : List Char) : List Char :=
  (cs.reverse.dropWhile p).reverse

/-- Drops white space from both ends. -/
def trim (cs : List Char) : List Char :=
  dropWhileEnd isSpace (cs.dropWhile isSpace)

@[simp] theorem trim_nil : trim [] = [] := rfl

end LocalizedKeys.Text
