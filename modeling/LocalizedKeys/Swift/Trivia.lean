import LocalizedKeys.Source.Cursor
import LocalizedKeys.Swift.SyntaxError

/-!
# Trivia

White space and comments between tokens. A line comment runs to the end of its line. A block
comment may hold others and ends where as many comments have been closed as were opened;
`commentLength?` counts them while it reads.
-/

namespace LocalizedKeys.Swift

open Text

/-- How many characters it takes, after the `passed` ones, until the number of open block
comments, `depth` now, is back at zero right after a comment was closed. -/
def commentLength? (depth : Int) (passed : Nat) : List Char → Option Nat
  | '/' :: '*' :: rest => commentLength? (depth + 1) (passed + 2) rest
  | '*' :: '/' :: rest =>
    if depth = 1 then some (passed + 2) else commentLength? (depth - 1) (passed + 2) rest
  | _ :: rest => commentLength? depth (passed + 1) rest
  | [] => none

/-- Moves past a block comment. -/
def skipBlockComment (c : Cursor) : Except SyntaxError Cursor :=
  match commentLength? 0 0 c.rest with
  | some n => .ok (c.advance n)
  | none => .error (.unterminated .blockComment c.pos)

/-- The length of the rest of the line. -/
def lineLength (cs : List Char) : Nat := (cs.takeWhile fun ch => !isLineEnd ch).length

/-- Moves past white space, line ends and comments. -/
def skipTrivia (c : Cursor) : Except SyntaxError Cursor :=
  match h : c.rest with
  | '/' :: '/' :: rest => skipTrivia (c.advance (lineLength rest + 2))
  | '/' :: '*' :: rest =>
    match commentLength? 1 0 rest with
    | some n => skipTrivia (c.advance (n + 2))
    | none => .error (.unterminated .blockComment c.pos)
  | ch :: _ => if isLayout ch then skipTrivia (c.advance 1) else .ok c
  | [] => .ok c
termination_by c.rest.length
decreasing_by
  all_goals
    rw [Cursor.length_advance, h]
    simp only [List.length_cons]
    omega

/-- Moves past spaces, tabs and block comments, and past a line comment up to the end of the
line. -/
def skipInlineTrivia (c : Cursor) : Except SyntaxError Cursor :=
  match h : c.rest with
  | '/' :: '/' :: rest => .ok (c.advance (lineLength rest + 2))
  | '/' :: '*' :: rest =>
    match commentLength? 1 0 rest with
    | some n => skipInlineTrivia (c.advance (n + 2))
    | none => .error (.unterminated .blockComment c.pos)
  | ch :: _ => if isBlank ch then skipInlineTrivia (c.advance 1) else .ok c
  | [] => .ok c
termination_by c.rest.length
decreasing_by
  all_goals
    rw [Cursor.length_advance, h]
    simp only [List.length_cons]
    omega

theorem skipTrivia_length_le {c c' : Cursor} (h : skipTrivia c = .ok c') :
    c'.rest.length ≤ c.rest.length := by
  fun_induction skipTrivia c with
  | case1 c rest _ ih => exact Nat.le_trans (ih h) (by rw [Cursor.length_advance]; omega)
  | case2 c rest _ n _ ih => exact Nat.le_trans (ih h) (by rw [Cursor.length_advance]; omega)
  | case3 => simp at h
  | case4 c ch _ _ _ _ _ ih => exact Nat.le_trans (ih h) (by rw [Cursor.length_advance]; omega)
  | case5 => obtain rfl := Except.ok.inj h; exact Nat.le_refl _
  | case6 => obtain rfl := Except.ok.inj h; exact Nat.le_refl _

theorem skipInlineTrivia_length_le {c c' : Cursor} (h : skipInlineTrivia c = .ok c') :
    c'.rest.length ≤ c.rest.length := by
  fun_induction skipInlineTrivia c with
  | case1 c rest _ =>
    obtain rfl := Except.ok.inj h
    rw [Cursor.length_advance]
    omega
  | case2 c rest _ n _ ih => exact Nat.le_trans (ih h) (by rw [Cursor.length_advance]; omega)
  | case3 => simp at h
  | case4 c ch _ _ _ _ _ ih => exact Nat.le_trans (ih h) (by rw [Cursor.length_advance]; omega)
  | case5 => obtain rfl := Except.ok.inj h; exact Nat.le_refl _
  | case6 => obtain rfl := Except.ok.inj h; exact Nat.le_refl _

end LocalizedKeys.Swift
