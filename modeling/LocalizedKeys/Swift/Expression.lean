import LocalizedKeys.Swift.Trivia

/-!
# Expressions and string literals

Expressions are never interpreted; all that is needed is their text and where they end. One
pass over the characters keeps a stack of what is open, innermost first: the expression itself,
brackets, string literals, and the interpolations inside them. What a character means depends
on the top of the stack alone, so a string literal is passed in the same way wherever it
stands.

* An expression ends before the first of its stop characters, or before a closing bracket, that
  is not inside anything else.
* A string literal has any number of hash marks around one or three quotes; its closing
  delimiter has as many. A backslash followed by the hash marks escapes one character, or opens
  an interpolation when a parenthesis follows.
* Comments are passed whole. The text of an expression leaves out blanks and comments at its
  end: `mark` is the place after the last character that belongs to it.
-/

namespace LocalizedKeys.Swift

open Text

/-- The closing bracket of an opening one. -/
def closingBracket? (c : Char) : Option Char :=
  if c = '(' then some ')' else if c = '[' then some ']' else if c = '{' then some '}' else none

/-- Closes a bracket of some kind. -/
def isClosingBracket (c : Char) : Bool := c == ')' || c == ']' || c == '}'

/-! ## What can be open -/

/-- A string literal that has been opened. -/
structure OpenLiteral where
  /-- Where its opening delimiter begins. -/
  start : Nat
  /-- The number of hash marks on either side. -/
  hashes : Nat
  /-- Whether it has three quotes. -/
  multiline : Bool
deriving DecidableEq, Repr

namespace OpenLiteral

/-- What closes the literal. -/
def closing (l : OpenLiteral) : List Char :=
  List.replicate (if l.multiline then 3 else 1) '"' ++ List.replicate l.hashes '#'

/-- What begins an escape in the literal. -/
def escape (l : OpenLiteral) : List Char := '\\' :: List.replicate l.hashes '#'

end OpenLiteral

/-- The literal that opens at offset `pos`, with the length of its opening delimiter. -/
def openLiteral? (pos : Nat) (cs : List Char) : Option (OpenLiteral × Nat) :=
  let hashes := (cs.takeWhile (· == '#')).length
  match cs.drop hashes with
  | '"' :: '"' :: '"' :: _ => some (⟨pos, hashes, true⟩, hashes + 3)
  | '"' :: _ => some (⟨pos, hashes, false⟩, hashes + 1)
  | _ => none

/-- Something that is open around the current character. -/
inductive Frame where
  /-- The scanned expression, which ends before its stop characters. -/
  | expression (stops : List Char)
  /-- A bracket that waits for its closing one. -/
  | bracket (close : Char)
  | literal (l : OpenLiteral)
  /-- An interpolation in the literal that begins at `start`. -/
  | interpolation (start : Nat)
deriving DecidableEq, Repr

/-- What to do at a character. -/
inductive Move where
  /-- End before it. -/
  | stop
  /-- Pass it and `extra` more characters, with `frames` open afterwards; `counts` tells
  whether they belong to the text of the expression. -/
  | pass (extra : Nat) (frames : List Frame) (counts : Bool)
deriving Repr

/-! ## One step -/

/-- Whether a string literal opens with `c`. -/
def opensLiteral (c : Char) (rest : List Char) : Bool :=
  c == '"' || (c == '#' && (rest.head? == some '"' || rest.head? == some '#'))

/-- The move at a character outside literals that closes no bracket. -/
def codeMove (frames : List Frame) (pos : Nat) (c : Char) (rest : List Char) :
    Except SyntaxError Move :=
  if opensLiteral c rest then
    match openLiteral? pos (c :: rest) with
    | some (l, length) => .ok (.pass (length - 1) (.literal l :: frames) true)
    | none => .error (.unterminated .stringLiteral pos)
  else if c = '/' ∧ rest.head? = some '/' then .ok (.pass (lineLength rest) frames false)
  else if c = '/' ∧ rest.head? = some '*' then
    match commentLength? 1 0 rest.tail with
    | some n => .ok (.pass (n + 1) frames false)
    | none => .error (.unterminated .blockComment pos)
  else
    match closingBracket? c with
    | some close => .ok (.pass 0 (.bracket close :: frames) true)
    | none => .ok (.pass 0 frames !isSpace c)

/-- The move at a character inside a literal; `outer` is what the literal stands in. -/
def literalMove (l : OpenLiteral) (outer : List Frame) (c : Char) (rest : List Char) :
    Except SyntaxError Move :=
  if l.closing.isPrefixOf (c :: rest) then .ok (.pass (l.closing.length - 1) outer true)
  else if l.escape.isPrefixOf (c :: rest) then
    -- the escape and one more character are passed, be it a parenthesis or any other
    let inside := if (rest.drop l.hashes).head? = some '(' then [.interpolation l.start] else []
    .ok (.pass (l.hashes + 1) (inside ++ .literal l :: outer) true)
  else if !l.multiline && isLineEnd c then .error (.unterminated .stringLiteral l.start)
  else .ok (.pass 0 (.literal l :: outer) true)

namespace Frame

/-- The move at a character when `frame` is innermost and `outer` is what it stands in. -/
def move (frame : Frame) (outer : List Frame) (pos : Nat) (c : Char) (rest : List Char) :
    Except SyntaxError Move :=
  match frame with
  | expression stops =>
    if stops.contains c || isClosingBracket c then .ok .stop
    else codeMove (frame :: outer) pos c rest
  | bracket close =>
    -- stop characters mean nothing inside brackets
    if c = close then .ok (.pass 0 outer true)
    else if isClosingBracket c then .error (.unexpected (some c) (.mark close) pos)
    else codeMove (frame :: outer) pos c rest
  | interpolation start =>
    if c = ')' then .ok (.pass 0 outer true)
    else if isClosingBracket c then .error (.unterminated .stringLiteral start)
    else codeMove (frame :: outer) pos c rest
  | literal l => literalMove l outer c rest

/-- What is wrong when the text ends inside the frame; an expression may end there. -/
def errorAtEnd? (pos : Nat) : Frame → Option SyntaxError
  | expression _ => none
  | bracket _ => some (.unexpectedEnd pos)
  | interpolation start => some (.unterminated .stringLiteral start)
  | literal l => some (.unterminated .stringLiteral l.start)

end Frame

/-! ## The pass -/

/-- Reads on until nothing is open or the expression ends, and gives the mark and the place
reached. -/
def scan (frames : List Frame) (mark : Nat) (c : Cursor) : Except SyntaxError (Nat × Cursor) :=
  match frames with
  | [] => .ok (mark, c)
  | frame :: outer =>
    match _hrest : c.rest with
    | [] =>
      match frame.errorAtEnd? c.pos with
      | some e => .error e
      | none => .ok (mark, c)
    | ch :: rest =>
      match frame.move outer c.pos ch rest with
      | .error e => .error e
      | .ok .stop => .ok (mark, c)
      | .ok (.pass extra frames counts) =>
        let c' := c.advance (extra + 1)
        scan frames (if counts then c'.pos else mark) c'
termination_by c.rest.length
decreasing_by
  rw [Cursor.length_advance, _hrest]
  simp only [List.length_cons]
  omega

/-- The text of the expression at a cursor, and the place of the stop character or closing
bracket that ends it. -/
def scanExpression (stops : List Char) (c : Cursor) : Except SyntaxError (String × Cursor) :=
  match scan [.expression stops] c.pos c with
  | .ok (mark, c') => .ok (String.ofList (trim (c.slice mark)), c')
  | .error e => .error e

/-- Moves past a string literal. -/
def skipStringLiteral (c : Cursor) : Except SyntaxError Cursor :=
  match openLiteral? c.pos c.rest with
  | none => .error (.unterminated .stringLiteral c.pos)
  | some (l, length) =>
    match scan [.literal l] c.pos (c.advance length) with
    | .ok (_, c') => .ok c'
    | .error e => .error e

/-- Moves past a bracketed group whose closing bracket is given; the cursor is on the opening
one. -/
def skipGroup (close : Char) (c : Cursor) : Except SyntaxError Cursor :=
  match scan [.expression []] c.pos (c.advance 1) with
  | .error e => .error e
  | .ok (_, inner) =>
    if inner.next? = some close then .ok (inner.advance 1)
    else .error (.unexpected inner.next? (.mark close) inner.pos)

/-! ## How far the pass gets -/

theorem scan_length_le {frames : List Frame} {mark mark' : Nat} {c c' : Cursor}
    (h : scan frames mark c = .ok (mark', c')) : c'.rest.length ≤ c.rest.length := by
  fun_induction scan frames mark c with
  | case1 | case3 | case5 =>
    obtain ⟨-, rfl⟩ := Prod.mk.inj (Except.ok.inj h)
    exact Nat.le_refl _
  | case2 | case4 => simp at h
  | case6 _ _ c _ _ _ _ extra _ _ _ _ ih =>
    exact Nat.le_trans (ih h) (by rw [Cursor.length_advance]; omega)

theorem scanExpression_length_le {stops : List Char} {c c' : Cursor} {text : String}
    (h : scanExpression stops c = .ok (text, c')) : c'.rest.length ≤ c.rest.length := by
  unfold scanExpression at h
  split at h
  · rename_i hscan
    obtain ⟨-, rfl⟩ := Prod.mk.inj (Except.ok.inj h)
    exact scan_length_le hscan
  · simp at h

theorem skipGroup_length_le {close : Char} {c c' : Cursor} (h : skipGroup close c = .ok c') :
    c'.rest.length ≤ c.rest.length := by
  unfold skipGroup at h
  split at h
  · simp at h
  · rename_i hscan
    have hlen := scan_length_le hscan
    rw [Cursor.length_advance] at hlen
    split at h
    · obtain rfl := Except.ok.inj h
      rw [Cursor.length_advance]
      omega
    · simp at h

end LocalizedKeys.Swift
