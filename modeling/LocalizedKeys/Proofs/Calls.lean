import LocalizedKeys.Proofs.Located

/-!
# The reader by calls

The reader of declarations checks that each declaration leaves less to read, and counts down how
many types may still open; expressions and literals are passed in one go over a stack. Here is the
same reader with nothing to hold it: expressions and string literals call each other, and so do
declarations and bodies, with the number of open types going up; each loop calls itself. The only
limit is on how many calls are open at a time. White space, attributes, modifiers, arguments and case
lists are read by recursions that are measured as they stand, so they are taken over.

With room for two calls for each character that is left, and two more, the limit is never met, and
the calls end in what the reader gives (`scansEnd`, `declarationsEnd`, `readForest_ends`). Each is an
induction on the room: a call at a place either hands on to one of the other kind there, or moves on.
-/

namespace LocalizedKeys.Swift

open Text Cursor

variable {α β : Type}

/-! ## Computations with a limit on open calls -/

/-- A computation that may fail, or need more open calls than there is room for. -/
abbrev Limited (α : Type) := ExceptT SyntaxError Option α

/-- The computation that ends in the given way. -/
def ends (x : Except SyntaxError α) : Limited α := ExceptT.mk (some x)

/-- One more call is needed than there is room for. -/
def exceeded : Limited α := ExceptT.mk none

theorem ends_ok_bind (a : α) (f : α → Limited β) : ends (.ok a) >>= f = f a := rfl

/-- What is done in two parts ends if both do. -/
theorem ends_bind {x : Except SyntaxError α} {f : α → Limited β} {g : α → Except SyntaxError β}
    (h : ∀ a, x = .ok a → f a = ends (g a)) : ends x >>= f = ends (x >>= g) := by
  cases x with
  | error e => rfl
  | ok a => exact h a rfl

namespace Limited

/-! ## Expressions and literals -/

mutual

/-- Passes an expression in which the brackets `opened` are open. -/
def scan (calls : Nat) (stops opened : List Char) (mark : Nat) (c : Cursor) :
    Limited (Nat × Cursor) :=
  match calls, c.rest with
  | 0, _ => exceeded
  | _ + 1, [] => if opened.isEmpty then return (mark, c) else throw (.unexpectedEnd c.pos)
  | calls + 1, ch :: rest =>
    if opened.isEmpty && (stops.contains ch || isClosingBracket ch) then return (mark, c)
    else if opensLiteral ch rest then do
      let c₁ ← skipStringLiteral calls c
      scan calls stops opened c₁.pos c₁
    else if c.startsWith ['/', '/'] then
      scan calls stops opened mark (c.advance (lineLength c.rest))
    else if c.startsWith ['/', '*'] then do
      let c₁ ← ends (skipBlockComment c)
      scan calls stops opened mark c₁
    else do
      let opened' ← ends (bracketsAfter opened ch c.pos)
      scan calls stops opened' (if isSpace ch then mark else (c.advance 1).pos) (c.advance 1)

/-- Passes a string literal. -/
def skipStringLiteral (calls : Nat) (c : Cursor) : Limited Cursor :=
  match calls with
  | 0 => exceeded
  | calls + 1 =>
    match openLiteral? c.pos c.rest with
    | none => throw (.unterminated .stringLiteral c.pos)
    | some (l, length) => skipToClosing calls l (c.advance length)

/-- Passes what is left of a string literal. -/
def skipToClosing (calls : Nat) (l : OpenLiteral) (c : Cursor) : Limited Cursor :=
  match calls, c.rest with
  | 0, _ => exceeded
  | _ + 1, [] => throw (.unterminated .stringLiteral l.start)
  | calls + 1, ch :: _ =>
    if c.startsWith l.closing then return c.advance l.closing.length
    else if c.startsWith l.escape then
      let inner := c.advance (l.escape.length + 1)
      if (c.advance l.escape.length).next? = some '(' then do
        let (_, c₁) ← scan calls [')'] [] inner.pos inner
        if c₁.next? = some ')' then skipToClosing calls l (c₁.advance 1)
        else throw (.unterminated .stringLiteral l.start)
      else skipToClosing calls l inner
    else if !l.multiline && isLineEnd ch then throw (.unterminated .stringLiteral l.start)
    else skipToClosing calls l (c.advance 1)

end

/-- The text of the expression at a cursor, and the place where it ends. -/
def scanExpression (calls : Nat) (stops : List Char) (c : Cursor) : Limited (String × Cursor) := do
  let (mark, c') ← scan calls stops [] c.pos c
  return (String.ofList (trim (c.slice mark)), c')

/-! ## Declarations and bodies -/

mutual

/-- The declaration at a cursor, inside `depth` types. -/
def readDeclaration (calls : Nat) (limit : Int) (depth : Nat) (start : Cursor) :
    Limited (Declaration × Cursor) :=
  match calls with
  | 0 => exceeded
  | calls + 1 => do
    let (attributes, c₁) ← ends (readAttributes start)
    let (modifiers, c₂) ← ends (readModifiers c₁)
    match lead c₂ with
    | .other => ends (readOther start attributes modifiers c₂)
    | .cases after => ends (readCases start.pos after)
    | .type kind after =>
      if limit ≤ depth then throw (.nestingTooDeep limit start.pos after.pos)
      else
        let ((name, inheritance), brace) ← ends (readTypeOpening after)
        let (members, close) ← readMembers calls limit (depth + 1) (brace.advance 1)
        let c' := close.advance 1
        let header : TypeHeader :=
          { kind, name, attributes, modifiers, inheritance,
            span := ⟨start.pos, c'.pos⟩, body := ⟨brace.pos, c'.pos⟩ }
        return (.type header members, c')

/-- The declarations up to the closing brace of a body, and its place. -/
def readMembers (calls : Nat) (limit : Int) (depth : Nat) (c : Cursor) :
    Limited (List Declaration × Cursor) :=
  match calls with
  | 0 => exceeded
  | calls + 1 => do
    let c₁ ← ends (skipTrivia c)
    if c₁.next? = some '\x7d' then return ([], c₁)
    else if c₁.atEnd then throw (expected c₁ (.mark '\x7d'))
    else if c₁.next? = some ';' then readMembers calls limit depth (c₁.advance 1)
    else
      let (d, c₂) ← readDeclaration calls limit depth c₁
      let (others, c₃) ← readMembers calls limit depth c₂
      return (d :: others, c₃)

end

/-- The declarations from a cursor to the end of the text. -/
def readForest (calls : Nat) (limit : Int) (c : Cursor) : Limited (List Declaration) :=
  match calls with
  | 0 => exceeded
  | calls + 1 => do
    let c₁ ← ends (skipTrivia c)
    if c₁.atEnd then return []
    else if c₁.next? = some ';' then readForest calls limit (c₁.advance 1)
    else if c₁.next?.any isClosingBracket then throw (expected c₁ .declaration)
    else
      let (d, c₂) ← readDeclaration calls limit 0 c₁
      let others ← readForest calls limit c₂
      return d :: others

/-- The declarations of a source. -/
def readSource (calls : Nat) (limits : Limits) (source : List Char) :
    Limited (List Declaration) :=
  if 0 < limits.maxSourceSize ∧ limits.maxSourceSize < source.length then
    throw (.sourceTooLarge source.length limits.maxSourceSize)
  else readForest calls limits.maxNestingDepth (start source)

end Limited

/-! ## Expressions and literals end -/

/-- With room for so many calls, expressions and literals are passed to their end wherever that is
enough for what is left to read. -/
structure ScansEnd (calls : Nat) : Prop where
  scan : ∀ {stops opened : List Char} {mark : Nat} {c : Cursor},
    2 * c.rest.length + 1 < calls → (∀ close ∈ opened, isClosingBracket close = true) →
    Limited.scan calls stops opened mark c = ends (Swift.scan (framesOf stops opened) mark c)
  skipStringLiteral : ∀ {c : Cursor}, 2 * c.rest.length < calls →
    Limited.skipStringLiteral calls c = ends (Swift.skipStringLiteral c)
  skipToClosing : ∀ {l : OpenLiteral} {c : Cursor}, 2 * c.rest.length < calls →
    Limited.skipToClosing calls l c = ends ((Swift.scan [.literal l] c.pos c).map Prod.snd)

variable {calls : Nat} {c : Cursor}

theorem ScansEnd.expression (h : ScansEnd calls) (hroom : 2 * c.rest.length + 1 < calls)
    (stops : List Char) (mark : Nat) :
    Limited.scan calls stops [] mark c = ends (Swift.scan [.expression stops] mark c) :=
  h.scan hroom fun _ hmem => absurd hmem List.not_mem_nil

theorem scan_ends (ih : ScansEnd calls) {stops opened : List Char} {mark : Nat}
    (hroom : 2 * c.rest.length + 1 < calls + 1)
    (hopened : ∀ close ∈ opened, isClosingBracket close = true) :
    Limited.scan (calls + 1) stops opened mark c = ends (scan (framesOf stops opened) mark c) := by
  rw [Limited.scan.eq_def, scan_framesOf hopened]
  cases hrest : c.rest with
  | nil =>
    dsimp only
    split <;> rfl
  | cons ch rest =>
    have hlength : c.rest.length = rest.length + 1 := by rw [hrest, List.length_cons]
    dsimp only
    split
    · rfl
    split
    · rw [ih.skipStringLiteral (by omega)]
      refine ends_bind fun c₁ hliteral => ih.scan ?_ hopened
      have := (skipStringLiteral_shorter hliteral).2
      omega
    split
    · rename_i hline
      refine ih.scan ?_ hopened
      obtain ⟨tail, htail⟩ := (startsWith_two _ _).1 hline
      have hslashes : c.rest.length = tail.length + 2 := by rw [htail]; rfl
      rw [length_advance, ← hrest, htail, lineLength_slash, lineLength_slash, ← htail]
      omega
    split
    · refine ends_bind fun c₁ hcomment => ih.scan ?_ hopened
      have := (skipBlockComment_shorter hcomment).2
      omega
    · refine ends_bind fun opened' hbrackets =>
        ih.scan ?_ (bracketsAfter_closing hopened hbrackets)
      rw [length_advance]
      omega

theorem skipStringLiteral_ends (ih : ScansEnd calls) (hroom : 2 * c.rest.length < calls + 1) :
    Limited.skipStringLiteral (calls + 1) c = ends (skipStringLiteral c) := by
  rw [Limited.skipStringLiteral, skipStringLiteral]
  cases hopen : openLiteral? c.pos c.rest with
  | none => rfl
  | some r =>
    obtain ⟨l, length⟩ := r
    have hlength := openLiteral?_length hopen
    dsimp only
    rw [ih.skipToClosing (by rw [length_advance]; omega), scan_literal_mark l _ c.pos]
    cases Swift.scan [.literal l] c.pos (c.advance length) <;> rfl

theorem skipToClosing_ends (ih : ScansEnd calls) {l : OpenLiteral}
    (hroom : 2 * c.rest.length < calls + 1) :
    Limited.skipToClosing (calls + 1) l c
      = ends ((scan [.literal l] c.pos c).map Prod.snd) := by
  rw [Limited.skipToClosing.eq_def, scan_literal_step]
  cases hrest : c.rest with
  | nil => rfl
  | cons ch rest =>
    have hshorter : ∀ n, (c.advance (n + 1)).rest.length < c.rest.length := by
      intro n
      rw [length_advance, hrest, List.length_cons]
      omega
    have hescape := hshorter l.escape.length
    have hnext : (c.advance 1).rest.length < c.rest.length := hshorter 0
    dsimp only
    split
    · rfl
    split
    · split
      · -- the interpolation ends, and the rest of the literal begins after it
        rw [ih.expression (by omega)]
        cases hscan : scan [.expression [')']] _ (c.advance (l.escape.length + 1)) with
        | error e => rfl
        | ok r =>
          obtain ⟨mark, c₁⟩ := r
          have hle := scan_length_le hscan
          rw [ends_ok_bind, ok_bind]
          dsimp only
          split
          · refine ih.skipToClosing ?_
            rw [length_advance]
            omega
          · rfl
      · exact ih.skipToClosing (by omega)
    split
    · rfl
    · exact ih.skipToClosing (by omega)

theorem scansEnd (calls : Nat) : ScansEnd calls := by
  induction calls with
  | zero =>
    constructor <;> intros <;> omega
  | succ calls ih => exact ⟨scan_ends ih, skipStringLiteral_ends ih, skipToClosing_ends ih⟩

theorem scanExpression_ends (hroom : 2 * c.rest.length + 1 < calls) (stops : List Char) :
    Limited.scanExpression calls stops c = ends (scanExpression stops c) := by
  rw [Limited.scanExpression, scanExpression, (scansEnd calls).expression hroom]
  cases scan [.expression stops] c.pos c <;> rfl

/-! ## Declarations end -/

/-- With room for so many calls, declarations and bodies are read to their end wherever that is
enough for what is left to read. -/
structure DeclarationsEnd (limit : Int) (calls : Nat) : Prop where
  readDeclaration : ∀ {depth : Nat} {c : Cursor}, 2 * c.rest.length < calls →
    Limited.readDeclaration calls limit depth c
      = ends (causeOf (Swift.readDeclaration limit (limit - depth).toNat c))
  readMembers : ∀ {depth : Nat} {c : Cursor}, 2 * c.rest.length + 1 < calls →
    Limited.readMembers calls limit depth c
      = ends (causeOf (readBody limit (limit - depth).toNat c))

variable {limit : Int}

/-- One type deeper there is one level less. -/
theorem readDeclaration_depth (limit : Int) (depth : Nat) :
    readDeclaration limit (limit - depth).toNat =
      readDeclarationWith limit
        (if limit ≤ depth then none else some (readBody limit (limit - (depth + 1 : Nat)).toNat)) := by
  by_cases hlimit : limit ≤ depth
  · rw [if_pos hlimit, show (limit - depth).toNat = 0 by omega]
    rfl
  · rw [if_neg hlimit, show (limit - depth).toNat = (limit - (depth + 1 : Nat)).toNat + 1 by omega]
    rfl

theorem readDeclaration_ends (ih : DeclarationsEnd limit calls) {depth : Nat}
    (hroom : 2 * c.rest.length < calls + 1) :
    Limited.readDeclaration (calls + 1) limit depth c
      = ends (causeOf (readDeclaration limit (limit - depth).toNat c)) := by
  rw [Limited.readDeclaration, readDeclaration_depth, causeOf_readDeclarationWith]
  refine ends_bind fun r hattributes => ends_bind fun r' hmodifiers => ?_
  obtain ⟨attributes, c₁⟩ := r
  obtain ⟨modifiers, c₂⟩ := r'
  dsimp only
  cases hlead : lead c₂ with
  | other => rfl
  | cases after => rfl
  | type kind after =>
    dsimp only
    by_cases hlimit : limit ≤ depth
    · rw [if_pos hlimit, if_pos hlimit]
      rfl
    rw [if_neg hlimit, if_neg hlimit]
    refine ends_bind fun r hopening => ?_
    obtain ⟨⟨name, inheritance⟩, brace⟩ := r
    have hshorter := ReadsOpening.body_shorter
      ⟨c₁, c₂, after, hattributes, hmodifiers, hlead, hopening⟩
    dsimp only
    rw [ih.readMembers (by omega)]
    exact ends_bind fun _ _ => rfl

theorem readMembers_ends (ih : DeclarationsEnd limit calls) {depth : Nat}
    (hroom : 2 * c.rest.length + 1 < calls + 1) :
    Limited.readMembers (calls + 1) limit depth c
      = ends (causeOf (readBody limit (limit - depth).toNat c)) := by
  rw [Limited.readMembers, readBody,
    causeOf_readDeclarations fun h => (readDeclaration_shorter h).2]
  refine ends_bind fun c₁ htrivia => ?_
  have hle := skipTrivia_length_le htrivia
  split
  · rfl
  split
  · rfl
  rename_i hend
  rw [atEnd_eq] at hend
  split
  · have hlt := semicolon_shorter htrivia hend
    exact ih.readMembers (by omega)
  rw [ih.readDeclaration (by omega)]
  refine ends_bind fun r hread => ?_
  obtain ⟨d, c₂⟩ := r
  have hlt := (readDeclaration_shorter (causeOf_eq_ok.1 hread)).2
  dsimp only
  rw [ih.readMembers (by omega)]
  exact ends_bind fun _ _ => rfl

theorem declarationsEnd (limit : Int) (calls : Nat) : DeclarationsEnd limit calls := by
  induction calls with
  | zero => constructor <;> intros <;> omega
  | succ calls ih => exact ⟨readDeclaration_ends ih, readMembers_ends ih⟩

theorem readForest_ends (hroom : 2 * c.rest.length + 1 < calls) :
    Limited.readForest calls limit c = ends (forestOf (readDeclaration limit limit.toNat) c) := by
  induction calls generalizing c with
  | zero => omega
  | succ calls ih =>
    rw [Limited.readForest, forestOf_eq (fun h => (readDeclaration_shorter h).2)
      readDeclaration_closing]
    refine ends_bind fun c₁ htrivia => ?_
    have hle := skipTrivia_length_le htrivia
    split
    · rfl
    rename_i hend
    rw [atEnd_eq] at hend
    split
    · have hlt := semicolon_shorter htrivia hend
      exact ih (by omega)
    split
    · rfl
    have hlevels : (limit - (0 : Nat)).toNat = limit.toNat := by omega
    rw [(declarationsEnd limit calls).readDeclaration (by omega), hlevels]
    refine ends_bind fun r hread => ?_
    obtain ⟨d, c₂⟩ := r
    have hlt := (readDeclaration_shorter (causeOf_eq_ok.1 hread)).2
    dsimp only
    rw [ih (by omega)]
    exact ends_bind fun _ _ => rfl

theorem readSource_ends {limits : Limits} {source : List Char}
    (hroom : 2 * source.length + 1 < calls) :
    Limited.readSource calls limits source = ends (causeOf (readSource limits source)) := by
  rw [Limited.readSource, causeOf_readSource]
  split
  · rfl
  · exact readForest_ends hroom

/-- The calls at a cursor come to an end with so much room, each with what the reader gives. -/
structure Terminates (calls : Nat) (c : Cursor) : Prop where
  expression : ∀ stops : List Char,
    Limited.scanExpression calls stops c = ends (scanExpression stops c)
  literal : Limited.skipStringLiteral calls c = ends (skipStringLiteral c)
  declaration : ∀ (limit : Int) (depth : Nat),
    Limited.readDeclaration calls limit depth c
      = ends (causeOf (readDeclaration limit (limit - depth).toNat c))
  members : ∀ (limit : Int) (depth : Nat),
    Limited.readMembers calls limit depth c
      = ends (causeOf (readBody limit (limit - depth).toNat c))

theorem terminates (hroom : 2 * c.rest.length + 1 < calls) : Terminates calls c where
  expression stops := scanExpression_ends hroom stops
  literal := (scansEnd calls).skipStringLiteral (by omega)
  declaration limit _ := (declarationsEnd limit calls).readDeclaration (by omega)
  members limit _ := (declarationsEnd limit calls).readMembers hroom

end LocalizedKeys.Swift
