import LocalizedKeys.Swift.Expression
import LocalizedKeys.Swift.Tree

/-!
# Reading attributes

An attribute is an at sign, a qualified name, and possibly an argument list in parentheses that
follows at once. Each argument may have a label: a name before a single colon. Every loop here
ends because one round leaves less to read, which the `_length_le` and `_shorter` lemmas say.
-/

namespace LocalizedKeys.Swift

/-- The error of finding something else than expected at a cursor. -/
def expected (c : Cursor) (what : Expectation) : SyntaxError := .unexpected c.next? what c.pos

/-- The label of the argument at a cursor, if it has one, and the place where its expression
begins. -/
def readLabel (c : Cursor) : Except SyntaxError (Option String × Cursor) :=
  match readName? c with
  | none => .ok (none, c)
  | some (name, afterName) =>
    match skipTrivia afterName with
    | .error e => .error e
    | .ok colon =>
      if colon.next? = some ':' ∧ (colon.advance 1).next? ≠ some ':' then
        match skipTrivia (colon.advance 1) with
        | .error e => .error e
        | .ok c' => .ok (some name, c')
      else .ok (none, c)

/-- The argument at a cursor, and the place where its expression ends. -/
def readArgument (c : Cursor) : Except SyntaxError (Argument × Cursor) :=
  match readLabel c with
  | .error e => .error e
  | .ok (label, c₁) =>
    match scanExpression [',', ')'] c₁ with
    | .error e => .error e
    | .ok (expression, c₂) =>
      if expression.isEmpty then .error (expected c₂ .argumentExpression)
      else .ok (⟨label, expression, ⟨c.pos, c₂.pos⟩⟩, c₂)

theorem readLabel_length_le {c c' : Cursor} {label : Option String}
    (h : readLabel c = .ok (label, c')) : c'.rest.length ≤ c.rest.length := by
  unfold readLabel at h
  split at h
  · obtain ⟨-, rfl⟩ := Prod.mk.inj (Except.ok.inj h)
    exact Nat.le_refl _
  · rename_i name afterName hname
    have hlt := readName?_shorter hname
    split at h
    · simp at h
    · rename_i colon hcolon
      have hle := skipTrivia_length_le hcolon
      split at h
      · split at h
        · simp at h
        · rename_i hafter
          obtain ⟨-, rfl⟩ := Prod.mk.inj (Except.ok.inj h)
          have := skipTrivia_length_le hafter
          rw [Cursor.length_advance] at this
          omega
      · obtain ⟨-, rfl⟩ := Prod.mk.inj (Except.ok.inj h)
        exact Nat.le_refl _

theorem readArgument_length_le {c c' : Cursor} {argument : Argument}
    (h : readArgument c = .ok (argument, c')) : c'.rest.length ≤ c.rest.length := by
  unfold readArgument at h
  split at h
  · simp at h
  · rename_i hlabel
    split at h
    · simp at h
    · rename_i hexpr
      split at h
      · simp at h
      · obtain ⟨-, rfl⟩ := Prod.mk.inj (Except.ok.inj h)
        exact Nat.le_trans (scanExpression_length_le hexpr) (readLabel_length_le hlabel)

/-- The arguments from a cursor to the closing parenthesis, at least one of them, and the place
after it. -/
def readArguments (c : Cursor) : Except SyntaxError (List Argument × Cursor) :=
  match _hargument : readArgument c with
  | .error e => .error e
  | .ok (argument, c₁) =>
    if c₁.next? = some ')' then .ok ([argument], c₁.advance 1)
    else if _hcomma : c₁.next? = some ',' then
      match _htrivia : skipTrivia (c₁.advance 1) with
      | .error e => .error e
      | .ok c₂ =>
        match readArguments c₂ with
        | .error e => .error e
        | .ok (others, c₃) => .ok (argument :: others, c₃)
    else .error (expected c₁ (if c₁.atEnd then .mark ')' else .commaOrClose))
termination_by c.rest.length
decreasing_by
  have hle := readArgument_length_le _hargument
  have hpos := List.length_pos_iff.2 (Cursor.rest_ne_nil_of_next? _hcomma)
  have hlt := skipTrivia_length_le _htrivia
  rw [Cursor.length_advance] at hlt
  omega

/-- The argument list at a cursor on its opening parenthesis, and the place after it. -/
def readArgumentList (c : Cursor) : Except SyntaxError (List Argument × Cursor) :=
  match skipTrivia (c.advance 1) with
  | .error e => .error e
  | .ok c₁ => if c₁.next? = some ')' then .ok ([], c₁.advance 1) else readArguments c₁

/-- The attribute at a cursor on its at sign, and the place after it. -/
def readAttribute (c : Cursor) : Except SyntaxError (Attribute × Cursor) :=
  match readQualifiedName? (c.advance 1) with
  | none => .error (expected (c.advance 1) .attributeName)
  | some (name, c₁) =>
    if c₁.next? = some '(' then
      match readArgumentList c₁ with
      | .error e => .error e
      | .ok (arguments, c₂) => .ok (⟨name, some arguments, ⟨c.pos, c₂.pos⟩⟩, c₂)
    else .ok (⟨name, none, ⟨c.pos, c₁.pos⟩⟩, c₁)

theorem readArguments_length_le {c c' : Cursor} {arguments : List Argument}
    (h : readArguments c = .ok (arguments, c')) : c'.rest.length ≤ c.rest.length := by
  fun_induction readArguments c generalizing arguments c' with
  | case2 c argument c₁ hargument hclose =>
    obtain ⟨-, rfl⟩ := Prod.mk.inj (Except.ok.inj h)
    have := readArgument_length_le hargument
    rw [Cursor.length_advance]
    omega
  | case5 c argument c₁ hargument hclose hcomma c₂ htrivia others c₃ hrest ih =>
    obtain ⟨-, rfl⟩ := Prod.mk.inj (Except.ok.inj h)
    have h₁ := readArgument_length_le hargument
    have h₂ := skipTrivia_length_le htrivia
    rw [Cursor.length_advance] at h₂
    have h₃ := ih hrest
    omega
  | case1 | case3 | case4 | case6 => simp at h

theorem readArgumentList_length_le {c c' : Cursor} {arguments : List Argument}
    (h : readArgumentList c = .ok (arguments, c')) : c'.rest.length ≤ c.rest.length := by
  unfold readArgumentList at h
  split at h
  · simp at h
  · rename_i c₁ htrivia
    have h₁ := skipTrivia_length_le htrivia
    rw [Cursor.length_advance] at h₁
    split at h
    · obtain ⟨-, rfl⟩ := Prod.mk.inj (Except.ok.inj h)
      rw [Cursor.length_advance]
      omega
    · have := readArguments_length_le h
      omega

theorem readAttribute_shorter {c c' : Cursor} {a : Attribute}
    (h : readAttribute c = .ok (a, c')) : c'.rest.length < c.rest.length := by
  unfold readAttribute at h
  split at h
  · simp at h
  · rename_i name c₁ hname
    have h₁ := readQualifiedName?_shorter hname
    rw [Cursor.length_advance] at h₁
    split at h
    · split at h
      · simp at h
      · rename_i arguments c₂ hlist
        obtain ⟨-, rfl⟩ := Prod.mk.inj (Except.ok.inj h)
        have := readArgumentList_length_le hlist
        omega
    · obtain ⟨-, rfl⟩ := Prod.mk.inj (Except.ok.inj h)
      omega

/-- The attributes at a cursor, each followed by trivia, and the place after them. -/
def readAttributes (c : Cursor) : Except SyntaxError (List Attribute × Cursor) :=
  if c.next? = some '@' then
    match _hattribute : readAttribute c with
    | .error e => .error e
    | .ok (a, c₁) =>
      match _htrivia : skipTrivia c₁ with
      | .error e => .error e
      | .ok c₂ =>
        match readAttributes c₂ with
        | .error e => .error e
        | .ok (others, c₃) => .ok (a :: others, c₃)
  else .ok ([], c)
termination_by c.rest.length
decreasing_by
  exact Nat.lt_of_le_of_lt (skipTrivia_length_le _htrivia) (readAttribute_shorter _hattribute)

end LocalizedKeys.Swift
