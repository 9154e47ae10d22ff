import LocalizedKeys.Diagnostic.Template
import LocalizedKeys.Swift.Declaration

/-!
# The reader with its checks

Reading looks at the character at a cursor, at the innermost open bracket, at the closing bracket of
an opening one, makes spans and locations of numbers, and writes the limit on nesting into a message.
Each of these can go wrong. The reader of `Declaration` is written so that it cannot; here every such
access is made where it is made, and ends in a `Fault` if it goes wrong. A loop that has read nothing
in a round, and so would go on for ever, is a fault as well. What is wrong with a source is reported
as a diagnostic right away.

An expression keeps its own stack of open brackets, and a string literal inside it is passed by a
call of its own, which reads the expressions of its interpolations in turn.
-/

namespace LocalizedKeys.Swift

open Text

/-- What must not happen while a source is read. -/
inductive Fault where
  /-- The character at the end of the text was asked for. -/
  | readAtEnd (pos : Nat)
  /-- The closing bracket of something else than a bracket was asked for. -/
  | noBracket (c : Char)
  /-- The innermost open bracket was asked for, and none was open. -/
  | nothingOpen
  | badSpan (e : SpanError)
  | badLocation (e : LocationError)
  /-- A message has a number that cannot be written. -/
  | unwritten (e : NumberError)
  /-- A round of a loop has read nothing. -/
  | stuck (pos : Nat)
deriving DecidableEq, Repr

/-- How reading ends without a result. -/
inductive Halt where
  | fault (f : Fault)
  | reported (d : Diagnostic)
deriving DecidableEq, Repr

/-- Reading ends with a report, if there can be one. -/
def Halt.ofReport : Except NumberError Diagnostic → Halt
  | .ok d => .reported d
  | .error e => .fault (.unwritten e)

/-- A reading in which every access is checked. -/
abbrev Checked := Except Halt

namespace Checked

variable {α : Type}

/-! ## What is checked -/

/-- Stops at a fault. -/
def fault (f : Fault) : Checked α := .error (.fault f)

/-- The character at a cursor. -/
def current (c : Cursor) : Checked Char :=
  match c.rest with
  | [] => fault (.readAtEnd c.pos)
  | ch :: _ => .ok ch

/-- Whether a character of a class comes next; whether the text ends is asked first. -/
def sees (p : Char → Bool) (c : Cursor) : Checked Bool :=
  if c.atEnd then return false
  else return p (← current c)

/-- The closing bracket of an opening one. -/
def closingOf (ch : Char) : Checked Char :=
  match closingBracket? ch with
  | some close => .ok close
  | none => fault (.noBracket ch)

/-- The innermost of the open brackets, by what closes it. -/
def innermost (opened : List Char) : Checked Char :=
  match opened with
  | [] => fault .nothingOpen
  | close :: _ => .ok close

/-- The span with the given bounds. -/
def spanOf (start stop : Nat) : Checked Span :=
  (Span.ofBounds start stop).mapError fun e => .fault (.badSpan e)

/-- The location of a range of a source, which ends where it starts if it would end before. -/
def locationOf (source : List Char) (start stop : Nat) : Checked Location :=
  let (line, column) := lineColumn source start
  (Location.ofNumbers start (max stop start : Nat) line column).mapError fun e =>
    .fault (.badLocation e)

/-- Ends with what is reported about a source. -/
def raise (source : List Char) : SyntaxError → Checked α
  | .unexpectedEnd pos => .error (.reported (.unexpectedEnd pos))
  | .unexpected found what pos => do
    let location ← locationOf source pos (pos + 1)
    .error (.reported (.unexpectedToken (foundText found) what.text (some location)))
  | .unterminated kind start => do
    let location ← locationOf source start (start + kind.markLength)
    .error (.reported (.unterminatedLiteral kind.text (some location)))
  | .nestingTooDeep limit start stop => do
    let location ← locationOf source start stop
    .error (.ofReport (Diagnostic.nestingDepthExceeded limit (some location)))
  | .sourceTooLarge size limit => .error (.reported (.sourceTooLarge size limit))

/-- Ends because something else stands at a cursor than what has to. -/
def raiseExpected (source : List Char) (c : Cursor) (what : Expectation) : Checked α := do
  let found ← if c.atEnd then pure none else some <$> current c
  raise source (.unexpected found what c.pos)

/-! ## Trivia and names -/

/-- Moves past the characters of a class. -/
def skipWhile (p : Char → Bool) (c : Cursor) : Checked Cursor :=
  if _hend : c.rest = [] then .ok c
  else do
    let ch ← current c
    if p ch then skipWhile p (c.advance 1) else return c
termination_by c.rest.length
decreasing_by
  have := List.length_pos_iff.2 _hend
  rw [Cursor.length_advance]
  omega

/-- Moves to the end of the line. -/
def skipLine (c : Cursor) : Checked Cursor := skipWhile (fun ch => !isLineEnd ch) c

variable (source : List Char)

def skipBlockComment (c : Cursor) : Checked Cursor :=
  match commentLength? 0 0 c.rest with
  | some n => .ok (c.advance n)
  | none => raise source (.unterminated .blockComment c.pos)

/-- Moves past white space, line ends and comments. -/
def skipTrivia (c : Cursor) : Checked Cursor := do
  let c₁ ← skipWhile isLayout c
  if c₁.startsWith ['/', '/'] then
    let c₂ ← skipLine c₁
    if _h : c₂.rest.length < c.rest.length then skipTrivia c₂ else fault (.stuck c₁.pos)
  else if c₁.startsWith ['/', '*'] then
    let c₂ ← skipBlockComment source c₁
    if _h : c₂.rest.length < c.rest.length then skipTrivia c₂ else fault (.stuck c₁.pos)
  else return c₁
termination_by c.rest.length

/-- Moves past blanks and comments on a line. -/
def skipInlineTrivia (c : Cursor) : Checked Cursor := do
  let c₁ ← skipWhile isBlank c
  if c₁.startsWith ['/', '/'] then skipLine c₁
  else if c₁.startsWith ['/', '*'] then
    let c₂ ← skipBlockComment source c₁
    if _h : c₂.rest.length < c.rest.length then skipInlineTrivia c₂ else fault (.stuck c₁.pos)
  else return c₁
termination_by c.rest.length

/-- The name at a cursor, and the place after it. -/
def readName? (c : Cursor) : Checked (Option (String × Cursor)) := do
  if c.atEnd then return none
  else if (← current c) = backtick then
    if ← sees isNameStart (c.advance 1) then
      let c₁ ← skipWhile isNamePart (c.advance 1)
      if ← sees (· == backtick) c₁ then
        return some (String.ofList (c.slice (c₁.advance 1).pos), c₁.advance 1)
      else return none
    else return none
  else if isNameStart (← current c) then
    let c₁ ← skipWhile isNamePart (c.advance 1)
    return some (String.ofList (c.slice c₁.pos), c₁)
  else return none

/-- The name that goes on with dots and more names. -/
def readDotted (name : String) (c : Cursor) : Checked (String × Cursor) := do
  if c.next? = some '.' then
    match ← readName? (c.advance 1) with
    | none => return (name, c)
    | some (next, c₁) =>
      if _h : c₁.rest.length < c.rest.length then readDotted (name ++ "." ++ next) c₁
      else fault (.stuck c.pos)
  else return (name, c)
termination_by c.rest.length

/-- The qualified name at a cursor, and the place after it. -/
def readQualifiedName? (c : Cursor) : Checked (Option (String × Cursor)) := do
  match ← readName? c with
  | none => return none
  | some (name, c₁) => some <$> readDotted name c₁

/-! ## Expressions -/

/-- The open brackets after a character outside of literals and comments. -/
def bracketsAfter (opened : List Char) (ch : Char) (pos : Nat) : Checked (List Char) := do
  match closingBracket? ch with
  | some close => return close :: opened
  | none =>
    if isClosingBracket ch then
      let close ← innermost opened
      if ch = close then return opened.tail
      else raise source (.unexpected (some ch) (.mark close) pos)
    else return opened

mutual

/-- Reads an expression on until a stop character outside of the open brackets, and gives the mark and
the place reached. -/
def scan (stops opened : List Char) (mark : Nat) (c : Cursor) : Checked (Nat × Cursor) :=
  if _hend : c.rest = [] then
    if opened.isEmpty then .ok (mark, c) else raise source (.unexpectedEnd c.pos)
  else do
    let ch ← current c
    if opened.isEmpty && (stops.contains ch || isClosingBracket ch) then return (mark, c)
    else if opensLiteral ch c.rest.tail then
      let c₁ ← skipLiteral c
      if _h : c₁.rest.length < c.rest.length then scan stops opened c₁.pos c₁
      else fault (.stuck c.pos)
    else if c.startsWith ['/', '/'] then
      let c₁ ← skipLine c
      if _h : c₁.rest.length < c.rest.length then scan stops opened mark c₁
      else fault (.stuck c.pos)
    else if c.startsWith ['/', '*'] then
      let c₁ ← skipBlockComment source c
      if _h : c₁.rest.length < c.rest.length then scan stops opened mark c₁
      else fault (.stuck c.pos)
    else
      let opened' ← bracketsAfter source opened ch c.pos
      scan stops opened' (if isSpace ch then mark else (c.advance 1).pos) (c.advance 1)
termination_by (c.rest.length, 1)
decreasing_by
  · exact Prod.Lex.right _ (by omega)
  · exact Prod.Lex.left _ _ _h
  · exact Prod.Lex.left _ _ _h
  · exact Prod.Lex.left _ _ _h
  · have := List.length_pos_iff.2 _hend
    exact Prod.Lex.left _ _ (by rw [Cursor.length_advance]; omega)

/-- Moves past the string literal at a cursor. -/
def skipLiteral (c : Cursor) : Checked Cursor := do
  let c₁ ← skipWhile (· == '#') c
  if ← sees (· == '"') c₁ then
    let multiline := c₁.startsWith ['"', '"', '"']
    let c₂ := c₁.advance (if multiline then 3 else 1)
    if _h : c₂.rest.length < c.rest.length then
      skipToClosing ⟨c.pos, c₁.pos - c.pos, multiline⟩ c₂
    else fault (.stuck c.pos)
  else raise source (.unterminated .stringLiteral c.pos)
termination_by (c.rest.length, 0)
decreasing_by
  exact Prod.Lex.left _ _ _h

/-- Moves past the rest of a string literal. -/
def skipToClosing (l : OpenLiteral) (c : Cursor) : Checked Cursor :=
  if _hend : c.rest = [] then raise source (.unterminated .stringLiteral l.start)
  else if c.startsWith l.closing then .ok (c.advance l.closing.length)
  else if c.startsWith l.escape then
    if (c.advance l.escape.length).atEnd then raise source (.unterminated .stringLiteral l.start)
    else do
      if (← current (c.advance l.escape.length)) = '(' then
        let inner := c.advance (l.escape.length + 1)
        let (_, c₁) ← scan [')'] [] inner.pos inner
        if ← sees (· == ')') c₁ then
          if _h : (c₁.advance 1).rest.length < c.rest.length then skipToClosing l (c₁.advance 1)
          else fault (.stuck c.pos)
        else raise source (.unterminated .stringLiteral l.start)
      else skipToClosing l (c.advance (l.escape.length + 1))
  else do
    if !l.multiline && isLineEnd (← current c) then
      raise source (.unterminated .stringLiteral l.start)
    else skipToClosing l (c.advance 1)
termination_by (c.rest.length, 0)
decreasing_by
  · have := List.length_pos_iff.2 _hend
    exact Prod.Lex.left _ _ (by rw [Cursor.length_advance]; omega)
  · exact Prod.Lex.left _ _ _h
  · have := List.length_pos_iff.2 _hend
    exact Prod.Lex.left _ _ (by rw [Cursor.length_advance]; omega)
  · have := List.length_pos_iff.2 _hend
    exact Prod.Lex.left _ _ (by rw [Cursor.length_advance]; omega)

end

/-- The text of the expression at a cursor, and the place where it ends. -/
def scanExpression (stops : List Char) (c : Cursor) : Checked (String × Cursor) := do
  let (mark, c') ← scan source stops [] c.pos c
  return (String.ofList (trim (c.slice mark)), c')

/-- Moves past the bracketed group at a cursor. -/
def skipGroup (c : Cursor) : Checked Cursor := do
  let close ← closingOf (← current c)
  let (_, inner) ← scan source [] [] c.pos (c.advance 1)
  if ← sees (· == close) inner then return inner.advance 1
  else raiseExpected source inner (.mark close)

/-! ## Attributes -/

def readLabel (c : Cursor) : Checked (Option String × Cursor) := do
  match ← readName? c with
  | none => return (none, c)
  | some (name, afterName) =>
    let colon ← skipTrivia source afterName
    if ← sees (· == ':') colon then
      if (colon.advance 1).next? = some ':' then return (none, c)
      else return (some name, ← skipTrivia source (colon.advance 1))
    else return (none, c)

def readArgument (c : Cursor) : Checked (Argument × Cursor) := do
  let (label, c₁) ← readLabel source c
  let (expression, c₂) ← scanExpression source [',', ')'] c₁
  if expression.isEmpty then raiseExpected source c₂ .argumentExpression
  else return (⟨label, expression, ← spanOf c.pos c₂.pos⟩, c₂)

def readArguments (c : Cursor) : Checked (List Argument × Cursor) := do
  let (argument, c₁) ← readArgument source c
  if c₁.atEnd then raiseExpected source c₁ (.mark ')')
  else if (← current c₁) = ')' then return ([argument], c₁.advance 1)
  else if (← current c₁) = ',' then
    let c₂ ← skipTrivia source (c₁.advance 1)
    if _h : c₂.rest.length < c.rest.length then
      let (others, c₃) ← readArguments c₂
      return (argument :: others, c₃)
    else fault (.stuck c.pos)
  else raiseExpected source c₁ .commaOrClose
termination_by c.rest.length

def readArgumentList (c : Cursor) : Checked (List Argument × Cursor) := do
  let c₁ ← skipTrivia source (c.advance 1)
  if ← sees (· == ')') c₁ then return ([], c₁.advance 1) else readArguments source c₁

def readAttribute (c : Cursor) : Checked (Attribute × Cursor) := do
  match ← readQualifiedName? (c.advance 1) with
  | none => raiseExpected source (c.advance 1) .attributeName
  | some (name, c₁) =>
    if ← sees (· == '(') c₁ then
      let (arguments, c₂) ← readArgumentList source c₁
      return (⟨name, some arguments, ← spanOf c.pos c₂.pos⟩, c₂)
    else return (⟨name, none, ← spanOf c.pos c₁.pos⟩, c₁)

def readAttributes (c : Cursor) : Checked (List Attribute × Cursor) := do
  if ← sees (· == '@') c then
    let (a, c₁) ← readAttribute source c
    let c₂ ← skipTrivia source c₁
    if _h : c₂.rest.length < c.rest.length then
      let (others, c₃) ← readAttributes c₂
      return (a :: others, c₃)
    else fault (.stuck c.pos)
  else return ([], c)
termination_by c.rest.length

/-! ## Modifiers -/

def isModifier (word : String) (after : Cursor) : Checked Bool := do
  if word = "class" then
    match ← readName? (← skipTrivia source after) with
    | some (following, _) => return classMemberWords.contains following
    | none => return false
  else return modifierWords.contains word

def skipModifierArgument (c : Cursor) : Checked Cursor := do
  if c.next? = some '(' then skipTrivia source (← skipGroup source c) else skipTrivia source c

def readModifiers (c : Cursor) : Checked (List String × Cursor) := do
  match ← readName? c with
  | none => return ([], c)
  | some (word, c₁) =>
    if ← isModifier source word c₁ then
      let c₂ ← skipModifierArgument source c₁
      if _h : c₂.rest.length < c.rest.length then
        let (others, c₃) ← readModifiers c₂
        return (word :: others, c₃)
      else fault (.stuck c.pos)
    else return ([], c)
termination_by c.rest.length

/-! ## Case declarations -/

def readRawValue (c : Cursor) : Checked (Option String × Cursor) := do
  if ← sees (· == '=') c then
    let c₁ ← skipInlineTrivia source (c.advance 1)
    let (expression, c₂) ← scanExpression source [',', ';', '\n', '\r'] c₁
    if expression.isEmpty then raiseExpected source c₂ .rawValue
    else return (some expression, ← skipInlineTrivia source c₂)
  else return (none, c)

def skipAssociatedValues (c : Cursor) : Checked Cursor := do
  if ← sees (· == '(') c then skipInlineTrivia source (← skipGroup source c) else return c

def readCaseElement (c : Cursor) : Checked (CaseElement × Cursor) := do
  let start ← skipTrivia source c
  match ← readName? start with
  | none => raiseExpected source start .caseName
  | some (name, c₁) =>
    let c₂ ← skipInlineTrivia source c₁
    let c₃ ← skipAssociatedValues source c₂
    let (rawValue, c₄) ← readRawValue source c₃
    return (⟨name, rawValue, ← spanOf start.pos c₄.pos⟩, c₄)

def readCaseElements (c : Cursor) : Checked (List CaseElement × Cursor) := do
  let (element, c₁) ← readCaseElement source c
  if ← sees (· == ',') c₁ then
    if _h : (c₁.advance 1).rest.length < c.rest.length then
      let (others, c₂) ← readCaseElements (c₁.advance 1)
      return (element :: others, c₂)
    else fault (.stuck c.pos)
  else return ([element], c₁)
termination_by c.rest.length
decreasing_by exact _h

def readCases (start : Nat) (c : Cursor) : Checked (Declaration × Cursor) := do
  let (elements, c') ← readCaseElements source c
  return (.cases elements (← spanOf start c'.pos), c')

/-! ## Types -/

/-- Moves past generic parameters, `depth` of which are open. -/
def skipAngles (depth : Int) (c : Cursor) : Checked Cursor :=
  if _hend : c.rest = [] then raiseExpected source c (.mark '>')
  else do
    if (← current c) = '<' then skipAngles (depth + 1) (c.advance 1)
    else if (← current c) = '>' then
      if depth - 1 = 0 then return c.advance 1 else skipAngles (depth - 1) (c.advance 1)
    else skipAngles depth (c.advance 1)
termination_by c.rest.length
decreasing_by
  all_goals
    have := List.length_pos_iff.2 _hend
    rw [Cursor.length_advance]
    omega

def skipGenerics (c : Cursor) : Checked Cursor := do
  if ← sees (· == '<') c then skipAngles source 0 c else return c

def readInheritance (c : Cursor) : Checked (List String × Cursor) := do
  if ← sees (· == ':') c then
    let (clause, c') ← scanExpression source ['\x7b'] (c.advance 1)
    return (inheritanceEntries clause, c')
  else if c.startsWith "where".toList then
    let (_, c') ← scanExpression source ['\x7b'] c
    return ([], c')
  else return ([], c)

def readTypeOpening (c : Cursor) : Checked ((String × List String) × Cursor) := do
  let c₁ ← skipTrivia source c
  match ← readQualifiedName? c₁ with
  | none => raiseExpected source c₁ .typeName
  | some (name, c₂) =>
    let c₃ ← skipTrivia source (← skipGenerics source c₂)
    let (inheritance, brace) ← readInheritance source c₃
    if ← sees (· == '\x7b') brace then return ((name, inheritance), brace)
    else raiseExpected source brace (.mark '\x7b')

/-! ## Declarations -/

def lead (c : Cursor) : Checked Lead := do
  match ← readName? c with
  | none => return .other
  | some (word, after) =>
    match TypeKind.ofKeyword? word with
    | some kind => return .type kind after
    | none => if word = "case" then return .cases after else return .other

def readOther (start : Cursor) (attributes : List Attribute) (modifiers : List String)
    (c : Cursor) : Checked (Declaration × Cursor) := do
  let (_, c') ← scanExpression source [';', '\n', '\r'] c
  if c'.pos = start.pos then raiseExpected source c' .declaration
  else
    let text := String.ofList (trim (start.slice c'.pos))
    return (.other text attributes modifiers (← spanOf start.pos c'.pos), c')

/-- The declaration at a cursor; bodies are read by `body?`. -/
def readDeclarationWith (limit : Int)
    (body? : Option (Cursor → Checked (List Declaration × Cursor))) (start : Cursor) :
    Checked (Declaration × Cursor) := do
  let (attributes, c₁) ← readAttributes source start
  let (modifiers, c₂) ← readModifiers source c₁
  match ← lead c₂ with
  | .other => readOther source start attributes modifiers c₂
  | .cases after => readCases source start.pos after
  | .type kind after =>
    match body? with
    | none => raise source (.nestingTooDeep limit start.pos after.pos)
    | some body =>
      let ((name, inheritance), brace) ← readTypeOpening source after
      let (members, close) ← body (brace.advance 1)
      if close.atEnd then raiseExpected source close (.mark '\x7d')
      else
        let c' := close.advance 1
        let span ← spanOf start.pos c'.pos
        let bodySpan ← spanOf brace.pos c'.pos
        return (.type { kind, name, attributes, modifiers, inheritance, span, body := bodySpan }
          members, c')

/-- The declarations of a body, and the place of its closing brace. -/
def readMembers (read : Cursor → Checked (Declaration × Cursor)) (c : Cursor) :
    Checked (List Declaration × Cursor) := do
  let c₁ ← skipTrivia source c
  if c₁.atEnd then raiseExpected source c₁ (.mark '\x7d')
  else if (← current c₁) = '\x7d' then return ([], c₁)
  else if (← current c₁) = ';' then
    if _h : (c₁.advance 1).rest.length < c.rest.length then readMembers read (c₁.advance 1)
    else fault (.stuck c.pos)
  else
    let (d, c₂) ← read c₁
    if _h : c₂.rest.length < c.rest.length then
      let (others, c₃) ← readMembers read c₂
      return (d :: others, c₃)
    else fault (.stuck c.pos)
termination_by c.rest.length
decreasing_by all_goals exact _h

/-- The declaration at a cursor, with types nested at most `levels` deep in it. -/
def readDeclaration (limit : Int) : Nat → Cursor → Checked (Declaration × Cursor)
  | 0 => readDeclarationWith source limit none
  | levels + 1 =>
    readDeclarationWith source limit (some (readMembers source (readDeclaration limit levels)))

/-- The declarations from a cursor to the end of the text. -/
def readForest (read : Cursor → Checked (Declaration × Cursor)) (c : Cursor) :
    Checked (List Declaration) := do
  let c₁ ← skipTrivia source c
  if c₁.atEnd then return []
  else if (← current c₁) = ';' then
    if _h : (c₁.advance 1).rest.length < c.rest.length then readForest read (c₁.advance 1)
    else fault (.stuck c.pos)
  else if isClosingBracket (← current c₁) then raiseExpected source c₁ .declaration
  else
    let (d, c₂) ← read c₁
    if _h : c₂.rest.length < c.rest.length then
      let others ← readForest read c₂
      return d :: others
    else fault (.stuck c.pos)
termination_by c.rest.length
decreasing_by all_goals exact _h

/-- The declarations of a source. -/
def readSource (limits : Limits) : Checked (List Declaration) :=
  if 0 < limits.maxSourceSize ∧ limits.maxSourceSize < source.length then
    raise source (.sourceTooLarge source.length limits.maxSourceSize)
  else
    readForest source (readDeclaration source limits.maxNestingDepth limits.maxNestingDepth.toNat)
      (Cursor.start source)

end Checked

end LocalizedKeys.Swift
