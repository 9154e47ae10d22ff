import LocalizedKeys.Swift.Case

/-!
# Reading declarations

A declaration is attributes, modifiers, and then a type, a case list or anything else, which is
kept as text up to the end of its line or a semicolon outside brackets. Types hold declarations
between braces. How deep types may nest is a number of levels that goes down with every body;
with none left no type may begin.

The body of a type is read by `readDeclarations`, which takes the reader of one declaration as
an argument: `readDeclaration` hands it itself with one level less.
-/

namespace LocalizedKeys.Swift

open Text

/-! ## Failures -/

/-- A failed reading: the cause, the types that had been closed before, in that order, and how
many bodies were still open. -/
structure Failure where
  cause : SyntaxError
  closed : List TypeDecl := []
  openBodies : Nat := 0
deriving Repr

mutual

/-- The types in a declaration in the order in which they are closed. -/
def Declaration.closedTypes : Declaration → List TypeDecl
  | .type header members => closedTypes members ++ [⟨header, members⟩]
  | .cases .. => []
  | .other .. => []

/-- The types in a forest in the order in which they are closed. -/
def closedTypes : List Declaration → List TypeDecl
  | [] => []
  | d :: rest => d.closedTypes ++ closedTypes rest

end

namespace Failure

/-- A failure before any type was closed. -/
def of (cause : SyntaxError) : Failure := { cause }

/-- A failure that comes after a declaration was read. -/
def after (d : Declaration) (f : Failure) : Failure :=
  { f with closed := d.closedTypes ++ f.closed }

/-- A failure inside a body. -/
def insideBody (f : Failure) : Failure := { f with openBodies := f.openBodies + 1 }

end Failure

/-! ## Modifiers -/

/-- The words that may stand before the keyword of a declaration. -/
def modifierWords : List String :=
  ["private", "fileprivate", "internal", "public", "open", "package", "static", "final",
    "indirect", "nonisolated", "override", "required", "convenience", "lazy", "weak", "unowned",
    "mutating", "nonmutating", "dynamic", "optional", "distributed"]

/-- The words before which `class` is a modifier. -/
def classMemberWords : List String :=
  ["func", "var", "let", "subscript", "override", "final", "private", "fileprivate", "internal",
    "public", "open"]

/-- Whether a word, read up to a cursor, is a modifier there. -/
def isModifier (word : String) (after : Cursor) : Except SyntaxError Bool :=
  if word = "class" then
    match skipTrivia after with
    | .error e => .error e
    | .ok c =>
      match readName? c with
      | some (following, _) => .ok (classMemberWords.contains following)
      | none => .ok false
  else .ok (modifierWords.contains word)

/-- Moves past a parenthesised argument such as the one of `private(set)`, and past trivia. -/
def skipModifierArgument (c : Cursor) : Except SyntaxError Cursor :=
  if c.next? = some '(' then
    match skipGroup ')' c with
    | .error e => .error e
    | .ok c' => skipTrivia c'
  else skipTrivia c

theorem skipModifierArgument_length_le {c c' : Cursor} (h : skipModifierArgument c = .ok c') :
    c'.rest.length ≤ c.rest.length := by
  unfold skipModifierArgument at h
  split at h
  · split at h
    · simp at h
    · rename_i hgroup
      exact Nat.le_trans (skipTrivia_length_le h) (skipGroup_length_le hgroup)
  · exact skipTrivia_length_le h

/-- The modifiers at a cursor, and the place after them. -/
def readModifiers (c : Cursor) : Except SyntaxError (List String × Cursor) :=
  match _hname : readName? c with
  | none => .ok ([], c)
  | some (word, c₁) =>
    match isModifier word c₁ with
    | .error e => .error e
    | .ok false => .ok ([], c)
    | .ok true =>
      match _hargument : skipModifierArgument c₁ with
      | .error e => .error e
      | .ok c₂ =>
        match readModifiers c₂ with
        | .error e => .error e
        | .ok (others, c₃) => .ok (word :: others, c₃)
termination_by c.rest.length
decreasing_by
  exact Nat.lt_of_le_of_lt (skipModifierArgument_length_le _hargument) (readName?_shorter _hname)

/-! ## The opening of a type -/

/-- How far it is past the closing angle bracket, when `depth` of them are open; everything else
is passed over. -/
def genericLength? (depth passed : Nat) : List Char → Option Nat
  | [] => none
  | c :: rest =>
    if c = '<' then genericLength? (depth + 1) (passed + 1) rest
    else if c = '>' then
      if depth = 1 then some (passed + 1) else genericLength? (depth - 1) (passed + 1) rest
    else genericLength? depth (passed + 1) rest

/-- Moves past the generic parameters at a cursor, if there are any. -/
def skipGenerics (c : Cursor) : Except SyntaxError Cursor :=
  if c.next? = some '<' then
    match genericLength? 0 0 c.rest with
    | some n => .ok (c.advance n)
    | none => .error (expected (c.advance c.rest.length) (.mark '>'))
  else .ok c

/-- What stands before the first occurrence of a word. -/
def textBefore (word : List Char) : List Char → List Char
  | [] => []
  | c :: rest => if word.isPrefixOf (c :: rest) then [] else c :: textBefore word rest

/-- The pieces between commas, the first of which has begun with `current`, kept in reverse. -/
def commaPieces (current : List Char) : List Char → List (List Char)
  | [] => [current.reverse]
  | c :: rest =>
    if c = ',' then current.reverse :: commaPieces [] rest else commaPieces (c :: current) rest

/-- The entries of an inheritance clause, without a generic requirement at its end. -/
def inheritanceEntries (clause : String) : List String :=
  let pieces := commaPieces [] (textBefore " where ".toList clause.toList)
  ((pieces.map trim).filter (!·.isEmpty)).map String.ofList

/-- The inheritance clause or generic requirement before a body, and the place after it. -/
def readInheritance (c : Cursor) : Except SyntaxError (List String × Cursor) :=
  if c.next? = some ':' then
    match scanExpression ['{'] (c.advance 1) with
    | .error e => .error e
    | .ok (clause, c') => .ok (inheritanceEntries clause, c')
  else if c.startsWith "where".toList then
    match scanExpression ['{'] c with
    | .error e => .error e
    | .ok (_, c') => .ok ([], c')
  else .ok ([], c)

/-- The name and inheritance of a type whose keyword ends at a cursor, and the place of its
opening brace. -/
def readTypeOpening (c : Cursor) : Except SyntaxError ((String × List String) × Cursor) := do
  let c₁ ← skipTrivia c
  match readQualifiedName? c₁ with
  | none => throw (expected c₁ .typeName)
  | some (name, c₂) =>
    let c₃ ← skipGenerics c₂
    let c₄ ← skipTrivia c₃
    let (inheritance, brace) ← readInheritance c₄
    if brace.next? = some '{' then return ((name, inheritance), brace)
    else throw (expected brace (.mark '{'))

/-! ## Declarations -/

/-- What comes after the attributes and modifiers of a declaration. -/
inductive Lead where
  | type (kind : TypeKind) (after : Cursor)
  | cases (after : Cursor)
  | other
deriving Repr

/-- What the name at a cursor introduces. -/
def lead (c : Cursor) : Lead :=
  match readName? c with
  | none => .other
  | some (word, after) =>
    match TypeKind.ofKeyword? word with
    | some kind => .type kind after
    | none => if word = "case" then .cases after else .other

/-- The declaration at `start` that is neither a type nor a case list; attributes and modifiers
end at `c`. -/
def readOther (start : Cursor) (attributes : List Attribute) (modifiers : List String)
    (c : Cursor) : Except SyntaxError (Declaration × Cursor) :=
  match scanExpression [';', '\n', '\r'] c with
  | .error e => .error e
  | .ok (_, c') =>
    if c'.pos = start.pos then .error (expected c' .declaration)
    else
      let text := String.ofList (trim (start.slice c'.pos))
      .ok (.other text attributes modifiers ⟨start.pos, c'.pos⟩, c')

/-- How the declarations of a body are read: they come with the place of its closing brace. -/
abbrev BodyReader := Cursor → Except Failure (List Declaration × Cursor)

/-- The declaration at a cursor, and the place after it. Bodies are read by `body?`; without it
no type may begin, because `limit` types are open. -/
def readDeclarationWith (limit : Int) (body? : Option BodyReader) (start : Cursor) :
    Except Failure (Declaration × Cursor) := do
  let (attributes, c₁) ← (readAttributes start).mapError Failure.of
  let (modifiers, c₂) ← (readModifiers c₁).mapError Failure.of
  match lead c₂ with
  | .other => (readOther start attributes modifiers c₂).mapError Failure.of
  | .cases after => (readCases start.pos after).mapError Failure.of
  | .type kind after =>
    match body? with
    -- the limit counts before the name is looked at
    | none => throw (.of (.nestingTooDeep limit start.pos after.pos))
    | some body =>
      let ((name, inheritance), brace) ← (readTypeOpening after).mapError Failure.of
      let (members, close) ← (body (brace.advance 1)).mapError Failure.insideBody
      let c' := close.advance 1
      let header : TypeHeader :=
        { kind, name, attributes, modifiers, inheritance,
          span := ⟨start.pos, c'.pos⟩, body := ⟨brace.pos, c'.pos⟩ }
      return (.type header members, c')

/-- The declarations from a cursor up to the character `closing`, or to the end of the text for
`none`, and the place reached. A declaration has to leave less to read. -/
def readDeclarations (closing : Option Char)
    (read : Cursor → Except Failure (Declaration × Cursor)) (c : Cursor) :
    Except Failure (List Declaration × Cursor) :=
  match _htrivia : skipTrivia c with
  | .error e => .error (.of e)
  | .ok c₁ =>
    if c₁.next? = closing then .ok ([], c₁)
    else if _hend : c₁.rest = [] then .error (.of (expected c₁ (.mark '}')))
    else if c₁.next? = some ';' then readDeclarations closing read (c₁.advance 1)
    else
      match read c₁ with
      | .error f => .error f
      | .ok (d, c₂) =>
        if _hshorter : c₂.rest.length < c₁.rest.length then
          match readDeclarations closing read c₂ with
          | .error f => .error (f.after d)
          | .ok (others, c₃) => .ok (d :: others, c₃)
        else .error (.of (expected c₁ .declaration))
termination_by c.rest.length
decreasing_by
  · have hle := skipTrivia_length_le _htrivia
    have hpos := List.length_pos_iff.2 _hend
    rw [Cursor.length_advance]
    omega
  · exact Nat.lt_of_lt_of_le _hshorter (skipTrivia_length_le _htrivia)

/-- The declaration at a cursor, and the place after it, with types nested at most `levels` deep
in it. -/
def readDeclaration (limit : Int) : (levels : Nat) → Cursor → Except Failure (Declaration × Cursor)
  | 0 => readDeclarationWith limit none
  | levels + 1 =>
    readDeclarationWith limit (some (readDeclarations (some '}') (readDeclaration limit levels)))

/-- The declarations of a body from a cursor on, and the place of its closing brace. -/
def readBody (limit : Int) (levels : Nat) : BodyReader :=
  readDeclarations (some '}') (readDeclaration limit levels)

/-! ## Whole sources -/

/-- How much is read at most. -/
structure Limits where
  /-- The number of characters allowed; zero or less for any number. -/
  maxSourceSize : Int := 10485760
  /-- How deep types may nest. -/
  maxNestingDepth : Int := 100
deriving DecidableEq, Repr

/-- The declarations of a source. -/
def readSource (limits : Limits) (source : List Char) : Except Failure (List Declaration) :=
  if 0 < limits.maxSourceSize ∧ limits.maxSourceSize < source.length then
    .error (.of (.sourceTooLarge source.length limits.maxSourceSize))
  else
    let levels := limits.maxNestingDepth.toNat
    match readDeclarations none (readDeclaration limits.maxNestingDepth levels)
        (Cursor.start source) with
    | .error f => .error f
    | .ok (declarations, _) => .ok declarations

end LocalizedKeys.Swift
