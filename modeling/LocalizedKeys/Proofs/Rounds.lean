import LocalizedKeys.Swift.Declaration

/-!
# One round of each loop

The readers of lists go on as long as there is another element, each round with a proof that less
is left to read. The equations here say what one successful round gives, without that proof, and
`readArguments_cases` and its companions say that there are no other ways to succeed.
-/

namespace LocalizedKeys.Swift

variable {c c₁ c₂ c₃ : Cursor}

/-! ## Arguments -/

theorem readArgument_run {label : Option String} {expression : String}
    (hlabel : readLabel c = .ok (label, c₁))
    (hexpression : scanExpression [',', ')'] c₁ = .ok (expression, c₂))
    (hne : expression.isEmpty = false) :
    readArgument c = .ok (⟨label, expression, ⟨c.pos, c₂.pos⟩⟩, c₂) := by
  simp [readArgument, hlabel, hexpression, hne]

theorem readArguments_last {a : Argument} (ha : readArgument c = .ok (a, c₁))
    (hclose : c₁.next? = some ')') : readArguments c = .ok ([a], c₁.advance 1) := by
  rw [readArguments]
  split
  · rename_i heq
    simp [ha] at heq
  · rename_i heq
    obtain ⟨rfl, rfl⟩ := Prod.mk.inj (Except.ok.inj (ha.symm.trans heq))
    rw [if_pos hclose]

theorem readArguments_more {a : Argument} {as : List Argument}
    (ha : readArgument c = .ok (a, c₁)) (hcomma : c₁.next? = some ',')
    (htrivia : skipTrivia (c₁.advance 1) = .ok c₂) (has : readArguments c₂ = .ok (as, c₃)) :
    readArguments c = .ok (a :: as, c₃) := by
  rw [readArguments]
  split
  · rename_i heq
    simp [ha] at heq
  · rename_i heq
    obtain ⟨rfl, rfl⟩ := Prod.mk.inj (Except.ok.inj (ha.symm.trans heq))
    rw [if_neg (by simp [hcomma]), dif_pos hcomma]
    split
    · rename_i heq
      simp [htrivia] at heq
    · rename_i heq
      obtain rfl := Except.ok.inj (htrivia.symm.trans heq)
      simp only [has]

/-! ## Attributes -/

theorem readAttributes_nil (h : c.next? ≠ some '@') : readAttributes c = .ok ([], c) := by
  rw [readAttributes, if_neg h]

theorem readAttributes_cons {a : Attribute} {as : List Attribute} (hat : c.next? = some '@')
    (ha : readAttribute c = .ok (a, c₁)) (htrivia : skipTrivia c₁ = .ok c₂)
    (has : readAttributes c₂ = .ok (as, c₃)) : readAttributes c = .ok (a :: as, c₃) := by
  rw [readAttributes, if_pos hat]
  split
  · rename_i heq
    simp [ha] at heq
  · rename_i heq
    obtain ⟨rfl, rfl⟩ := Prod.mk.inj (Except.ok.inj (ha.symm.trans heq))
    split
    · rename_i heq
      simp [htrivia] at heq
    · rename_i heq
      obtain rfl := Except.ok.inj (htrivia.symm.trans heq)
      simp only [has]

/-! ## Modifiers -/

theorem readModifiers_noName (h : readName? c = none) : readModifiers c = .ok ([], c) := by
  rw [readModifiers]
  split
  · rfl
  · rename_i heq
    simp [h] at heq

theorem readModifiers_nil {word : String} (hname : readName? c = some (word, c₁))
    (hword : isModifier word c₁ = .ok false) : readModifiers c = .ok ([], c) := by
  rw [readModifiers]
  split
  · rfl
  · rename_i heq
    obtain ⟨rfl, rfl⟩ := Prod.mk.inj (Option.some.inj (hname.symm.trans heq))
    simp only [hword]

theorem readModifiers_cons {word : String} {ms : List String}
    (hname : readName? c = some (word, c₁)) (hword : isModifier word c₁ = .ok true)
    (hargument : skipModifierArgument c₁ = .ok c₂) (hms : readModifiers c₂ = .ok (ms, c₃)) :
    readModifiers c = .ok (word :: ms, c₃) := by
  rw [readModifiers]
  split
  · rename_i heq
    simp [hname] at heq
  · rename_i heq
    obtain ⟨rfl, rfl⟩ := Prod.mk.inj (Option.some.inj (hname.symm.trans heq))
    simp only [hword]
    split
    · rename_i heq
      simp [hargument] at heq
    · rename_i heq
      obtain rfl := Except.ok.inj (hargument.symm.trans heq)
      simp only [hms]

/-! ## Case elements -/

theorem readRawValue_none (h : c.next? ≠ some '=') : readRawValue c = .ok (none, c) := by
  rw [readRawValue, if_neg h]

theorem readRawValue_some {text : String} (hsign : c.next? = some '=')
    (hbefore : skipInlineTrivia (c.advance 1) = .ok c₁)
    (hscan : scanExpression [',', ';', '\n', '\r'] c₁ = .ok (text, c₂))
    (htext : text.isEmpty = false) (hafter : skipInlineTrivia c₂ = .ok c₃) :
    readRawValue c = .ok (some text, c₃) := by
  simp [readRawValue, hsign, hbefore, hscan, htext, hafter]

theorem readCaseElement_run {start c' : Cursor} {name : String} {rawValue : Option String}
    (htrivia : skipTrivia c = .ok start) (hname : readName? start = some (name, c₁))
    (hinline : skipInlineTrivia c₁ = .ok c₂) (hvalues : skipAssociatedValues c₂ = .ok c₃)
    (hraw : readRawValue c₃ = .ok (rawValue, c')) :
    readCaseElement c = .ok (⟨name, rawValue, ⟨start.pos, c'.pos⟩⟩, c') := by
  simp only [readCaseElement, htrivia, hname, hinline, hvalues, hraw]

theorem readCaseElements_last {e : CaseElement} (he : readCaseElement c = .ok (e, c₁))
    (hcomma : c₁.next? ≠ some ',') : readCaseElements c = .ok ([e], c₁) := by
  rw [readCaseElements]
  split
  · rename_i heq
    simp [he] at heq
  · rename_i heq
    obtain ⟨rfl, rfl⟩ := Prod.mk.inj (Except.ok.inj (he.symm.trans heq))
    rw [if_neg hcomma]

theorem readCaseElements_more {e : CaseElement} {es : List CaseElement}
    (he : readCaseElement c = .ok (e, c₁)) (hcomma : c₁.next? = some ',')
    (hes : readCaseElements (c₁.advance 1) = .ok (es, c₂)) :
    readCaseElements c = .ok (e :: es, c₂) := by
  rw [readCaseElements]
  split
  · rename_i heq
    simp [he] at heq
  · rename_i heq
    obtain ⟨rfl, rfl⟩ := Prod.mk.inj (Except.ok.inj (he.symm.trans heq))
    rw [if_pos hcomma, hes]

/-! ## Other declarations -/

theorem readOther_run {start : Cursor} {attributes : List Attribute} {modifiers : List String}
    {text : String} (hscan : scanExpression [';', '\n', '\r'] c = .ok (text, c₁))
    (hpos : c₁.pos ≠ start.pos) :
    readOther start attributes modifiers c
      = .ok (.other (String.ofList (Text.trim (start.slice c₁.pos))) attributes modifiers
          ⟨start.pos, c₁.pos⟩, c₁) := by
  rw [readOther, hscan]
  dsimp only
  rw [if_neg hpos]

end LocalizedKeys.Swift
