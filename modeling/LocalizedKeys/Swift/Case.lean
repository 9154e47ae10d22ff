import LocalizedKeys.Swift.Attribute

/-!
# Reading case declarations

After the keyword come elements between commas. An element is a name, possibly with associated
values in parentheses, which are skipped, and possibly a raw value after an equals sign, which
ends at a comma, a semicolon or the end of the line.
-/

namespace LocalizedKeys.Swift

/-- Moves past the associated values of a case and the trivia after them, if there are any. -/
def skipAssociatedValues (c : Cursor) : Except SyntaxError Cursor :=
  if c.next? = some '(' then
    match skipGroup ')' c with
    | .error e => .error e
    | .ok c' => skipInlineTrivia c'
  else .ok c

/-- The raw value at a cursor, if there is one, and the place after it and its trivia. -/
def readRawValue (c : Cursor) : Except SyntaxError (Option String × Cursor) :=
  if c.next? = some '=' then
    match skipInlineTrivia (c.advance 1) with
    | .error e => .error e
    | .ok c₁ =>
      match scanExpression [',', ';', '\n', '\r'] c₁ with
      | .error e => .error e
      | .ok (expression, c₂) =>
        if expression.isEmpty then .error (expected c₂ .rawValue)
        else
          match skipInlineTrivia c₂ with
          | .error e => .error e
          | .ok c₃ => .ok (some expression, c₃)
  else .ok (none, c)

/-- The case element that follows the trivia at a cursor, and the place after it. -/
def readCaseElement (c : Cursor) : Except SyntaxError (CaseElement × Cursor) :=
  match skipTrivia c with
  | .error e => .error e
  | .ok start =>
    match readName? start with
    | none => .error (expected start .caseName)
    | some (name, c₁) =>
      match skipInlineTrivia c₁ with
      | .error e => .error e
      | .ok c₂ =>
        match skipAssociatedValues c₂ with
        | .error e => .error e
        | .ok c₃ =>
          match readRawValue c₃ with
          | .error e => .error e
          | .ok (rawValue, c₄) => .ok (⟨name, rawValue, ⟨start.pos, c₄.pos⟩⟩, c₄)

theorem skipAssociatedValues_length_le {c c' : Cursor} (h : skipAssociatedValues c = .ok c') :
    c'.rest.length ≤ c.rest.length := by
  unfold skipAssociatedValues at h
  split at h
  · split at h
    · simp at h
    · rename_i hgroup
      exact Nat.le_trans (skipInlineTrivia_length_le h) (skipGroup_length_le hgroup)
  · obtain rfl := Except.ok.inj h
    exact Nat.le_refl _

theorem readRawValue_length_le {c c' : Cursor} {rawValue : Option String}
    (h : readRawValue c = .ok (rawValue, c')) : c'.rest.length ≤ c.rest.length := by
  unfold readRawValue at h
  split at h
  · split at h
    · simp at h
    · rename_i c₁ htrivia
      have h₁ := skipInlineTrivia_length_le htrivia
      rw [Cursor.length_advance] at h₁
      split at h
      · simp at h
      · rename_i hexpr
        have h₂ := scanExpression_length_le hexpr
        split at h
        · simp at h
        · split at h
          · simp at h
          · rename_i hafter
            obtain ⟨-, rfl⟩ := Prod.mk.inj (Except.ok.inj h)
            have := skipInlineTrivia_length_le hafter
            omega
  · obtain ⟨-, rfl⟩ := Prod.mk.inj (Except.ok.inj h)
    exact Nat.le_refl _

theorem readCaseElement_shorter {c c' : Cursor} {element : CaseElement}
    (h : readCaseElement c = .ok (element, c')) : c'.rest.length < c.rest.length := by
  unfold readCaseElement at h
  split at h
  · simp at h
  · rename_i start htrivia
    have h₀ := skipTrivia_length_le htrivia
    split at h
    · simp at h
    · rename_i hname
      have h₁ := readName?_shorter hname
      split at h
      · simp at h
      · rename_i hinline
        have h₂ := skipInlineTrivia_length_le hinline
        split at h
        · simp at h
        · rename_i hvalues
          have h₃ := skipAssociatedValues_length_le hvalues
          split at h
          · simp at h
          · rename_i hraw
            have h₄ := readRawValue_length_le hraw
            obtain ⟨-, rfl⟩ := Prod.mk.inj (Except.ok.inj h)
            omega

/-- The case elements from a cursor on, at least one of them, and the place after the last. -/
def readCaseElements (c : Cursor) : Except SyntaxError (List CaseElement × Cursor) :=
  match _helement : readCaseElement c with
  | .error e => .error e
  | .ok (element, c₁) =>
    if c₁.next? = some ',' then
      match readCaseElements (c₁.advance 1) with
      | .error e => .error e
      | .ok (others, c₂) => .ok (element :: others, c₂)
    else .ok ([element], c₁)
termination_by c.rest.length
decreasing_by
  have := readCaseElement_shorter _helement
  rw [Cursor.length_advance]
  omega

/-- The case declaration whose keyword ends at a cursor; the declaration starts at `start`. -/
def readCases (start : Nat) (c : Cursor) : Except SyntaxError (Declaration × Cursor) :=
  match readCaseElements c with
  | .error e => .error e
  | .ok (elements, c') => .ok (.cases elements ⟨start, c'.pos⟩, c')

end LocalizedKeys.Swift
