import LocalizedKeys.Proofs.Names
import LocalizedKeys.Proofs.Passage
import LocalizedKeys.Proofs.Reads

/-!
# Readers move forward

Every reader leaves its text where it was and moves on in it: the cursor it returns is the one it
was given after some of the characters that followed (`Cursor.Reaches`). So a place that has been
passed once lies before every place that is reached later, and a cursor of a source stays one.
The attributes of a declaration lie between its start and whatever comes after them, each with
its at sign, its name and its argument list.
-/

namespace LocalizedKeys

namespace Cursor

/-- `c'` is a later place of the same text. -/
def Reaches (c c' : Cursor) : Prop := ∃ w, c.Moves w c'

theorem Moves.reaches {c c' : Cursor} {w : List Char} (h : c.Moves w c') : c.Reaches c' := ⟨w, h⟩

theorem Reaches.refl (c : Cursor) : c.Reaches c := ⟨[], .refl c⟩

theorem Reaches.trans {c c₁ c₂ : Cursor} (h₁ : c.Reaches c₁) (h₂ : c₁.Reaches c₂) :
    c.Reaches c₂ := by
  obtain ⟨w₁, h₁⟩ := h₁
  obtain ⟨w₂, h₂⟩ := h₂
  exact ⟨w₁ ++ w₂, h₁.trans h₂⟩

theorem reaches_advance (c : Cursor) (n : Nat) : c.Reaches (c.advance n) :=
  ⟨c.rest.take n, (List.take_append_drop n c.rest).symm, rfl⟩

theorem Reaches.pos_le {c c' : Cursor} (h : c.Reaches c') : c.pos ≤ c'.pos := by
  obtain ⟨w, -, hpos⟩ := h
  omega

theorem Reaches.length_le {c c' : Cursor} (h : c.Reaches c') :
    c'.rest.length ≤ c.rest.length := by
  obtain ⟨w, hrest, -⟩ := h
  rw [hrest, List.length_append]
  omega

/-- A character that is there is passed. -/
theorem advance_shorter {c : Cursor} {ch : Char} (h : c.next? = some ch) :
    (c.advance 1).rest.length < c.rest.length := by
  have hpos := List.length_pos_iff.2 (rest_ne_nil_of_next? h)
  rw [length_advance]
  omega

theorem pos_advance_one {c : Cursor} {ch : Char} (h : c.next? = some ch) :
    (c.advance 1).pos = c.pos + 1 := by
  have hpos := List.length_pos_iff.2 (rest_ne_nil_of_next? h)
  rw [advance_pos]
  omega

theorem At.pos_add_length {text : List Char} {c : Cursor} (h : c.At text) :
    c.pos + c.rest.length = text.length := by
  have := h.1
  rw [h.2, List.length_drop]
  omega

/-- A place of a text is found again by its position. -/
theorem At.seek_eq {text : List Char} {c : Cursor} (h : c.At text) : seek text c.pos = c := by
  rw [seek, Nat.min_eq_left h.1, ← h.2]

/-- A later place of a place of a text is one itself. -/
theorem Reaches.at_of {text : List Char} {c c' : Cursor} (h : c.Reaches c') (hc : c.At text) :
    c'.At text := by
  obtain ⟨w, hrest, hpos⟩ := h
  have hlen := hc.pos_add_length
  rw [hrest, List.length_append] at hlen
  refine ⟨by omega, ?_⟩
  rw [hpos, ← List.drop_drop, ← hc.2, hrest, List.drop_left]

end Cursor

namespace Swift

open Cursor

variable {c c' : Cursor}

/-! ## Tokens -/

/-- A block comment has at least its delimiters. -/
theorem skipBlockComment_shorter (h : skipBlockComment c = .ok c') :
    c.Reaches c' ∧ c'.rest.length < c.rest.length := by
  unfold skipBlockComment at h
  split at h
  · rename_i n hn
    obtain rfl := Except.ok.inj h
    obtain ⟨k, hk, hle, htake⟩ := commentLength?_take hn
    have hpos : k ≠ 0 := by
      intro hzero
      simp [hzero, commentLength?] at htake
    refine ⟨reaches_advance c n, ?_⟩
    rw [length_advance]
    omega
  · simp at h

theorem reaches_skipTrivia (h : skipTrivia c = .ok c') : c.Reaches c' := by
  obtain ⟨w, hmoves, -⟩ := skipTrivia_spec h
  exact hmoves.reaches

theorem reaches_skipInlineTrivia (h : skipInlineTrivia c = .ok c') : c.Reaches c' := by
  obtain ⟨w, hmoves, -⟩ := skipInlineTrivia_spec h
  exact hmoves.reaches

/-- A name is what lies between the places before and after it. -/
theorem moves_readName? {name : String} (h : readName? c = some (name, c')) :
    c.Moves name.toList c' := by
  obtain ⟨n, hmoves, -, rfl⟩ := readName?_spec h
  rwa [String.toList_ofList]

theorem reaches_readName? {name : String} (h : readName? c = some (name, c')) : c.Reaches c' :=
  (moves_readName? h).reaches

/-- A qualified name is what lies between the places before and after it. -/
theorem moves_readQualifiedName? {name : String} (h : readQualifiedName? c = some (name, c')) :
    c.Moves name.toList c' := by
  obtain ⟨n, -, heq⟩ := Option.map_eq_some_iff.1 h
  obtain ⟨rfl, rfl⟩ := Prod.mk.inj heq
  rw [String.toList_ofList]
  exact ⟨(List.take_append_drop _ c.rest).symm, rfl⟩

theorem reaches_scan {frames : List Frame} {mark mark' : Nat}
    (h : scan frames mark c = .ok (mark', c')) : c.Reaches c' := by
  obtain ⟨w, k, frames', hmoves, -⟩ := scan_spec h
  exact hmoves.reaches

theorem reaches_scanExpression {stops : List Char} {text : String}
    (h : scanExpression stops c = .ok (text, c')) : c.Reaches c' := by
  obtain ⟨w, k, hmoves, -⟩ := scanExpression_spec h
  exact hmoves.reaches

/-- A string literal has at least its quotes. -/
theorem skipStringLiteral_shorter {c c' : Cursor} (h : skipStringLiteral c = .ok c') :
    c.Reaches c' ∧ c'.rest.length < c.rest.length := by
  unfold skipStringLiteral at h
  split at h
  · simp at h
  · rename_i l n hopen
    have hn := openLiteral?_length hopen
    split at h
    · rename_i hscan
      obtain rfl := Except.ok.inj h
      have hle := scan_length_le hscan
      rw [Cursor.length_advance] at hle
      exact ⟨(reaches_advance c n).trans (reaches_scan hscan), by omega⟩
    · simp at h

/-- A group has at least its closing bracket. -/
theorem skipGroup_shorter {close : Char} (h : skipGroup close c = .ok c') :
    c.Reaches c' ∧ c'.rest.length < c.rest.length := by
  unfold skipGroup at h
  split at h
  · simp at h
  rename_i mark inner hscan
  split at h
  · rename_i hclose
    obtain rfl := Except.ok.inj h
    have hreach := (reaches_advance c 1).trans (reaches_scan hscan)
    exact ⟨hreach.trans (reaches_advance inner 1),
      Nat.lt_of_lt_of_le (advance_shorter hclose) hreach.length_le⟩
  · simp at h

/-! ## Attributes -/

/-- The steps of reading a label. -/
theorem readLabel_spec {label : Option String} (h : readLabel c = .ok (label, c')) :
    (readName? c = none ∧ label = none ∧ c' = c) ∨
      ∃ name after colon, readName? c = some (name, after) ∧ skipTrivia after = .ok colon ∧
        ((colon.next? = some ':' ∧ (colon.advance 1).next? ≠ some ':') ∧ label = some name ∧
            skipTrivia (colon.advance 1) = .ok c' ∨
          ¬(colon.next? = some ':' ∧ (colon.advance 1).next? ≠ some ':') ∧ label = none ∧
            c' = c) := by
  unfold readLabel at h
  split at h
  · rename_i hname
    obtain ⟨rfl, rfl⟩ := Prod.mk.inj (Except.ok.inj h)
    exact .inl ⟨hname, rfl, rfl⟩
  · rename_i name after hname
    split at h
    · simp at h
    · rename_i colon hcolon
      refine .inr ⟨name, after, colon, hname, hcolon, ?_⟩
      split at h
      · rename_i hlabelled
        split at h
        · simp at h
        · rename_i hafter
          obtain ⟨rfl, rfl⟩ := Prod.mk.inj (Except.ok.inj h)
          exact .inl ⟨hlabelled, rfl, hafter⟩
      · rename_i hlabelled
        obtain ⟨rfl, rfl⟩ := Prod.mk.inj (Except.ok.inj h)
        exact .inr ⟨hlabelled, rfl, rfl⟩

theorem reaches_readLabel {label : Option String} (h : readLabel c = .ok (label, c')) :
    c.Reaches c' := by
  rcases readLabel_spec h with ⟨-, -, rfl⟩ | ⟨name, after, colon, hname, hcolon,
    ⟨-, -, hafter⟩ | ⟨-, -, rfl⟩⟩
  · exact .refl c'
  · exact (reaches_readName? hname).trans ((reaches_skipTrivia hcolon).trans
      ((reaches_advance colon 1).trans (reaches_skipTrivia hafter)))
  · exact .refl c'

/-- The steps of reading an argument. -/
theorem readArgument_spec {a : Argument} (h : readArgument c = .ok (a, c')) :
    ∃ c₁, readLabel c = .ok (a.label, c₁) ∧
      scanExpression [',', ')'] c₁ = .ok (a.expression, c') ∧ a.expression.isEmpty = false ∧
      a.span = ⟨c.pos, c'.pos⟩ := by
  unfold readArgument at h
  split at h
  · simp at h
  · rename_i label c₁ hlabel
    split at h
    · simp at h
    · rename_i hscan
      split at h
      · simp at h
      · rename_i hexpression
        obtain ⟨rfl, rfl⟩ := Prod.mk.inj (Except.ok.inj h)
        exact ⟨c₁, hlabel, hscan, by simpa using hexpression, rfl⟩

theorem reaches_readArgument {a : Argument} (h : readArgument c = .ok (a, c')) :
    c.Reaches c' := by
  obtain ⟨c₁, hlabel, hscan, -⟩ := readArgument_spec h
  exact (reaches_readLabel hlabel).trans (reaches_scanExpression hscan)

theorem reaches_readArguments {as : List Argument} (h : readArguments c = .ok (as, c')) :
    c.Reaches c' := by
  fun_induction readArguments c generalizing as c' with
  | case2 c a c₁ ha hclose =>
    obtain ⟨-, rfl⟩ := Prod.mk.inj (Except.ok.inj h)
    exact (reaches_readArgument ha).trans (reaches_advance c₁ 1)
  | case5 c a c₁ ha hclose hcomma c₂ htrivia others c₃ hrest ih =>
    obtain ⟨-, rfl⟩ := Prod.mk.inj (Except.ok.inj h)
    exact (reaches_readArgument ha).trans ((reaches_advance c₁ 1).trans
      ((reaches_skipTrivia htrivia).trans (ih hrest)))
  | case1 | case3 | case4 | case6 => simp at h

theorem readArguments_shorter {argument : Argument} {c₁ c₂ : Cursor}
    (hargument : readArgument c = .ok (argument, c₁)) (hcomma : c₁.next? = some ',')
    (htrivia : skipTrivia (c₁.advance 1) = .ok c₂) : c₂.rest.length < c.rest.length := by
  have hle := readArgument_length_le hargument
  have hpos := List.length_pos_iff.2 (rest_ne_nil_of_next? hcomma)
  have hle₂ := skipTrivia_length_le htrivia
  rw [length_advance] at hle₂
  omega

/-- Arguments end with their closing parenthesis. -/
theorem readArguments_closed {as : List Argument} (h : readArguments c = .ok (as, c')) :
    c'.rest.length < c.rest.length := by
  fun_induction readArguments c generalizing as c' with
  | case2 c a c₁ ha hclose =>
    obtain ⟨-, rfl⟩ := Prod.mk.inj (Except.ok.inj h)
    exact Nat.lt_of_lt_of_le (advance_shorter hclose) (readArgument_length_le ha)
  | case5 c a c₁ ha hclose hcomma c₂ htrivia others c₃ hrest ih =>
    obtain ⟨-, rfl⟩ := Prod.mk.inj (Except.ok.inj h)
    exact Nat.lt_trans (ih hrest) (readArguments_shorter ha hcomma htrivia)
  | case1 | case3 | case4 | case6 => simp at h

theorem reaches_readArgumentList {as : List Argument} (h : readArgumentList c = .ok (as, c')) :
    c.Reaches c' := by
  unfold readArgumentList at h
  split at h
  · simp at h
  · rename_i c₁ htrivia
    have h₁ := (reaches_advance c 1).trans (reaches_skipTrivia htrivia)
    split at h
    · obtain ⟨-, rfl⟩ := Prod.mk.inj (Except.ok.inj h)
      exact h₁.trans (reaches_advance c₁ 1)
    · exact h₁.trans (reaches_readArguments h)

/-- An attribute begins with an at sign and its name, and its span is what lies between the
places before and after it. -/
theorem moves_readAttribute {a : Attribute} (hat : c.next? = some '@')
    (h : readAttribute c = .ok (a, c')) :
    ∃ arguments, c.Moves ('@' :: (a.name.toList ++ arguments)) c' ∧ a.span = ⟨c.pos, c'.pos⟩ := by
  obtain ⟨rest, hrest⟩ := List.head?_eq_some_iff.1 hat
  unfold readAttribute at h
  split at h
  · simp at h
  · rename_i name c₁ hname
    have hmoves := moves_readQualifiedName? hname
    split at h
    · split at h
      · simp at h
      · rename_i arguments c₂ hlist
        obtain ⟨w, hw⟩ := reaches_readArgumentList hlist
        obtain ⟨rfl, rfl⟩ := Prod.mk.inj (Except.ok.inj h)
        exact ⟨w, .cons hrest (hmoves.trans hw), rfl⟩
    · obtain ⟨rfl, rfl⟩ := Prod.mk.inj (Except.ok.inj h)
      exact ⟨[], .cons hrest (hmoves.trans (.refl _)), rfl⟩

theorem reaches_readAttribute {a : Attribute} (h : readAttribute c = .ok (a, c')) :
    c.Reaches c' := by
  unfold readAttribute at h
  split at h
  · simp at h
  rename_i name c₁ hname
  have hreach := (reaches_advance c 1).trans (moves_readQualifiedName? hname).reaches
  split at h
  · split at h
    · simp at h
    · rename_i arguments c₂ hlist
      obtain ⟨-, rfl⟩ := Prod.mk.inj (Except.ok.inj h)
      exact hreach.trans (reaches_readArgumentList hlist)
  · obtain ⟨-, rfl⟩ := Prod.mk.inj (Except.ok.inj h)
    exact hreach

/-- The attribute lies between two places. -/
def Attribute.Between (a : Attribute) (c c' : Cursor) : Prop :=
  ∃ c₁ c₂ arguments, c.Reaches c₁ ∧ c₁.Moves ('@' :: (a.name.toList ++ arguments)) c₂ ∧
    c₂.Reaches c' ∧ a.span = ⟨c₁.pos, c₂.pos⟩

theorem Attribute.Between.mono {a : Attribute} {c₁ c₂ : Cursor} (h : a.Between c₁ c₂)
    (h₁ : c.Reaches c₁) (h₂ : c₂.Reaches c') : a.Between c c' := by
  obtain ⟨d₁, d₂, arguments, hd₁, hmoves, hd₂, hspan⟩ := h
  exact ⟨d₁, d₂, arguments, h₁.trans hd₁, hmoves, hd₂.trans h₂, hspan⟩

theorem reaches_readAttributes {as : List Attribute} (h : readAttributes c = .ok (as, c')) :
    c.Reaches c' ∧ ∀ a ∈ as, a.Between c c' := by
  fun_induction readAttributes c generalizing as c' with
  | case4 c hat a c₁ ha c₂ htrivia others c₃ hrest ih =>
    obtain ⟨rfl, rfl⟩ := Prod.mk.inj (Except.ok.inj h)
    obtain ⟨hreach, hothers⟩ := ih hrest
    have h₁ := reaches_readAttribute ha
    have h₂ := reaches_skipTrivia htrivia
    refine ⟨h₁.trans (h₂.trans hreach), fun b hb => ?_⟩
    rcases List.mem_cons.1 hb with rfl | hb
    · obtain ⟨arguments, hmoves, hspan⟩ := moves_readAttribute hat ha
      exact ⟨c, c₁, arguments, .refl c, hmoves, h₂.trans hreach, hspan⟩
    · exact (hothers b hb).mono (h₁.trans h₂) (.refl _)
  | case5 =>
    obtain ⟨rfl, rfl⟩ := Prod.mk.inj (Except.ok.inj h)
    exact ⟨.refl _, by simp⟩
  | case1 | case2 | case3 => simp at h

/-! ## Modifiers and the opening of a type -/

theorem reaches_skipModifierArgument (h : skipModifierArgument c = .ok c') : c.Reaches c' := by
  unfold skipModifierArgument at h
  split at h
  · split at h
    · simp at h
    · rename_i hgroup
      exact (skipGroup_shorter hgroup).1.trans (reaches_skipTrivia h)
  · exact reaches_skipTrivia h

theorem reaches_readModifiers {ms : List String} (h : readModifiers c = .ok (ms, c')) :
    c.Reaches c' := by
  fun_induction readModifiers c generalizing ms c' with
  | case1 | case3 =>
    obtain ⟨-, rfl⟩ := Prod.mk.inj (Except.ok.inj h)
    exact .refl _
  | case6 c word c₁ hname hword c₂ hargument others c₃ hrest ih =>
    obtain ⟨-, rfl⟩ := Prod.mk.inj (Except.ok.inj h)
    exact (reaches_readName? hname).trans
      ((reaches_skipModifierArgument hargument).trans (ih hrest))
  | case2 | case4 | case5 => simp at h

theorem reaches_skipGenerics (h : skipGenerics c = .ok c') : c.Reaches c' := by
  unfold skipGenerics at h
  split at h
  · split at h
    · obtain rfl := Except.ok.inj h
      exact reaches_advance c _
    · simp at h
  · obtain rfl := Except.ok.inj h
    exact .refl c

theorem reaches_readInheritance {is : List String} (h : readInheritance c = .ok (is, c')) :
    c.Reaches c' := by
  unfold readInheritance at h
  split at h
  · split at h
    · simp at h
    · rename_i hscan
      obtain ⟨-, rfl⟩ := Prod.mk.inj (Except.ok.inj h)
      exact (reaches_advance c 1).trans (reaches_scanExpression hscan)
  · split at h
    · split at h
      · simp at h
      · rename_i hscan
        obtain ⟨-, rfl⟩ := Prod.mk.inj (Except.ok.inj h)
        exact reaches_scanExpression hscan
    · obtain ⟨-, rfl⟩ := Prod.mk.inj (Except.ok.inj h)
      exact .refl c

/-- The steps of reading the opening of a type. -/
theorem readTypeOpening_spec {name : String} {inheritance : List String} {brace : Cursor}
    (h : readTypeOpening c = .ok ((name, inheritance), brace)) :
    ∃ c₁ c₂ c₃ c₄, skipTrivia c = .ok c₁ ∧ readQualifiedName? c₁ = some (name, c₂) ∧
      skipGenerics c₂ = .ok c₃ ∧ skipTrivia c₃ = .ok c₄ ∧
      readInheritance c₄ = .ok (inheritance, brace) ∧ brace.next? = some '\x7b' := by
  unfold readTypeOpening at h
  simp only [bind, Except.bind] at h
  split at h
  · simp at h
  · rename_i c₁ htrivia
    split at h
    · simp [throw, throwThe, MonadExceptOf.throw] at h
    · rename_i name' c₂ hname
      split at h
      · simp at h
      · rename_i c₃ hgenerics
        split at h
        · simp at h
        · rename_i c₄ htrivia'
          split at h
          · simp at h
          · rename_i r hinheritance
            obtain ⟨inheritance', brace'⟩ := r
            dsimp only at h
            split at h
            · rename_i hbrace
              simp only [pure, Except.pure, Except.ok.injEq, Prod.mk.injEq] at h
              obtain ⟨⟨rfl, rfl⟩, rfl⟩ := h
              exact ⟨c₁, c₂, c₃, c₄, htrivia, hname, hgenerics, htrivia', hinheritance, hbrace⟩
            · simp [throw, throwThe, MonadExceptOf.throw] at h

theorem reaches_readTypeOpening {name : String} {inheritance : List String} {brace : Cursor}
    (h : readTypeOpening c = .ok ((name, inheritance), brace)) :
    c.Reaches brace ∧ brace.next? = some '\x7b' := by
  obtain ⟨c₁, c₂, c₃, c₄, htrivia, hname, hgenerics, htrivia', hinheritance, hbrace⟩ :=
    readTypeOpening_spec h
  refine ⟨?_, hbrace⟩
  exact (reaches_skipTrivia htrivia).trans ((moves_readQualifiedName? hname).reaches.trans
    ((reaches_skipGenerics hgenerics).trans ((reaches_skipTrivia htrivia').trans
      (reaches_readInheritance hinheritance))))

theorem reaches_lead {kind : TypeKind} {after : Cursor} (h : lead c = .type kind after) :
    c.Reaches after := by
  unfold lead at h
  split at h
  · simp at h
  · rename_i word after' hname
    split at h
    · obtain ⟨-, rfl⟩ := Lead.type.inj h
      exact reaches_readName? hname
    · split at h <;> simp at h

theorem reaches_readsOpening {kind : TypeKind} {name : String} {attributes : List Attribute}
    {modifiers inheritance : List String} {brace : Cursor}
    (h : ReadsOpening c kind name attributes modifiers inheritance brace) :
    c.Reaches brace ∧ brace.next? = some '\x7b' ∧ ∀ a ∈ attributes, a.Between c brace := by
  obtain ⟨c₁, c₂, after, hattributes, hmodifiers, hlead, hafter⟩ := h
  obtain ⟨h₁, hbetween⟩ := reaches_readAttributes hattributes
  obtain ⟨hopening, hbrace⟩ := reaches_readTypeOpening hafter
  have h₂ := (reaches_readModifiers hmodifiers).trans ((reaches_lead hlead).trans hopening)
  exact ⟨h₁.trans h₂, hbrace, fun a ha => (hbetween a ha).mono (.refl c) h₂⟩

theorem ReadsOpening.body_shorter {kind : TypeKind} {name : String} {attributes : List Attribute}
    {modifiers inheritance : List String} {brace : Cursor}
    (h : ReadsOpening c kind name attributes modifiers inheritance brace) :
    (brace.advance 1).rest.length < c.rest.length := by
  obtain ⟨hreach, hbrace, -⟩ := reaches_readsOpening h
  exact Nat.lt_of_lt_of_le (advance_shorter hbrace) hreach.length_le

/-! ## Declarations that hold no others -/

theorem reaches_skipAssociatedValues (h : skipAssociatedValues c = .ok c') : c.Reaches c' := by
  unfold skipAssociatedValues at h
  split at h
  · split at h
    · simp at h
    · rename_i hgroup
      exact (skipGroup_shorter hgroup).1.trans (reaches_skipInlineTrivia h)
  · obtain rfl := Except.ok.inj h
    exact .refl c

/-- The steps of reading a raw value. -/
theorem readRawValue_spec {rawValue : Option String} (h : readRawValue c = .ok (rawValue, c')) :
    c.next? ≠ some '=' ∧ rawValue = none ∧ c' = c ∨
      ∃ text c₁ c₂, c.next? = some '=' ∧ skipInlineTrivia (c.advance 1) = .ok c₁ ∧
        scanExpression [',', ';', '\n', '\r'] c₁ = .ok (text, c₂) ∧ text.isEmpty = false ∧
        skipInlineTrivia c₂ = .ok c' ∧ rawValue = some text := by
  unfold readRawValue at h
  split at h
  · rename_i hsign
    split at h
    · simp at h
    · rename_i hbefore
      split at h
      · simp at h
      · rename_i hscan
        split at h
        · simp at h
        · rename_i htext
          split at h
          · simp at h
          · rename_i hafter
            obtain ⟨rfl, rfl⟩ := Prod.mk.inj (Except.ok.inj h)
            exact .inr ⟨_, _, _, hsign, hbefore, hscan, by simpa using htext, hafter, rfl⟩
  · rename_i hsign
    obtain ⟨rfl, rfl⟩ := Prod.mk.inj (Except.ok.inj h)
    exact .inl ⟨hsign, rfl, rfl⟩

theorem reaches_readRawValue {rawValue : Option String} (h : readRawValue c = .ok (rawValue, c')) :
    c.Reaches c' := by
  rcases readRawValue_spec h with ⟨-, -, rfl⟩ | ⟨_, c₁, c₂, -, hbefore, hscan, -, hafter, -⟩
  · exact .refl c'
  · exact (reaches_advance c 1).trans ((reaches_skipInlineTrivia hbefore).trans
      ((reaches_scanExpression hscan).trans (reaches_skipInlineTrivia hafter)))

/-- The steps of reading a case element. -/
theorem readCaseElement_spec {element : CaseElement} (h : readCaseElement c = .ok (element, c')) :
    ∃ start name c₁ c₂ c₃ rawValue, skipTrivia c = .ok start ∧
      readName? start = some (name, c₁) ∧ skipInlineTrivia c₁ = .ok c₂ ∧
      skipAssociatedValues c₂ = .ok c₃ ∧ readRawValue c₃ = .ok (rawValue, c') ∧
      element = ⟨name, rawValue, ⟨start.pos, c'.pos⟩⟩ := by
  unfold readCaseElement at h
  split at h
  · simp at h
  · rename_i start htrivia
    split at h
    · simp at h
    · rename_i name c₁ hname
      split at h
      · simp at h
      · rename_i c₂ hinline
        split at h
        · simp at h
        · rename_i c₃ hvalues
          split at h
          · simp at h
          · rename_i rawValue c₄ hraw
            obtain ⟨rfl, rfl⟩ := Prod.mk.inj (Except.ok.inj h)
            exact ⟨start, name, c₁, c₂, c₃, rawValue, htrivia, hname, hinline, hvalues, hraw, rfl⟩

theorem reaches_readCaseElement {element : CaseElement}
    (h : readCaseElement c = .ok (element, c')) : c.Reaches c' := by
  obtain ⟨start, name, c₁, c₂, c₃, rawValue, htrivia, hname, hinline, hvalues, hraw, -⟩ :=
    readCaseElement_spec h
  exact (reaches_skipTrivia htrivia).trans ((reaches_readName? hname).trans
    ((reaches_skipInlineTrivia hinline).trans ((reaches_skipAssociatedValues hvalues).trans
      (reaches_readRawValue hraw))))

theorem reaches_readCaseElements {elements : List CaseElement}
    (h : readCaseElements c = .ok (elements, c')) : c.Reaches c' := by
  fun_induction readCaseElements c generalizing elements c' with
  | case3 c e c₁ he hcomma others c₂ hrest ih =>
    obtain ⟨-, rfl⟩ := Prod.mk.inj (Except.ok.inj h)
    exact (reaches_readCaseElement he).trans ((reaches_advance c₁ 1).trans (ih hrest))
  | case4 c e c₁ he hcomma =>
    obtain ⟨-, rfl⟩ := Prod.mk.inj (Except.ok.inj h)
    exact reaches_readCaseElement he
  | case1 | case2 => simp at h

theorem lead_cases_shorter {after : Cursor} (h : lead c = .cases after) :
    after.rest.length < c.rest.length := by
  unfold lead at h
  split at h
  · simp at h
  · rename_i hname
    split at h
    · simp at h
    · split at h
      · obtain rfl := Lead.cases.inj h
        exact readName?_shorter hname
      · simp at h

theorem reaches_lead_cases {after : Cursor} (h : lead c = .cases after) : c.Reaches after := by
  unfold lead at h
  split at h
  · simp at h
  · rename_i word after' hname
    split at h
    · simp at h
    · split at h
      · obtain rfl := Lead.cases.inj h
        exact reaches_readName? hname
      · simp at h

/-- The steps of reading a case declaration. -/
theorem readCases_spec {start : Nat} {d : Declaration} (h : readCases start c = .ok (d, c')) :
    ∃ elements, readCaseElements c = .ok (elements, c') ∧ d = .cases elements ⟨start, c'.pos⟩ := by
  unfold readCases at h
  split at h
  · simp at h
  · rename_i helements
    obtain ⟨rfl, rfl⟩ := Prod.mk.inj (Except.ok.inj h)
    exact ⟨_, helements, rfl⟩

theorem reaches_readCases {start : Nat} {d : Declaration} (h : readCases start c = .ok (d, c')) :
    c.Reaches c' := by
  obtain ⟨_, helements, -⟩ := readCases_spec h
  exact reaches_readCaseElements helements

/-- The steps of reading a declaration that is neither a type nor a case list. -/
theorem readOther_spec {start : Cursor} {attributes : List Attribute} {modifiers : List String}
    {d : Declaration} (h : readOther start attributes modifiers c = .ok (d, c')) :
    ∃ text, scanExpression [';', '\n', '\r'] c = .ok (text, c') ∧ c'.pos ≠ start.pos ∧
      d = .other (String.ofList (Text.trim (start.slice c'.pos))) attributes modifiers
        ⟨start.pos, c'.pos⟩ := by
  unfold readOther at h
  split at h
  · simp at h
  · rename_i hscan
    split at h
    · simp at h
    · rename_i hpos
      obtain ⟨rfl, rfl⟩ := Prod.mk.inj (Except.ok.inj h)
      exact ⟨_, hscan, hpos, rfl⟩

theorem reaches_readOther {start : Cursor} {attributes : List Attribute} {modifiers : List String}
    {d : Declaration} (h : readOther start attributes modifiers c = .ok (d, c')) :
    c.Reaches c' := by
  obtain ⟨_, hscan, -⟩ := readOther_spec h
  exact reaches_scanExpression hscan

theorem reaches_readsLeaf {d : Declaration} (h : ReadsLeaf c d c') : c.Reaches c' := by
  cases h with
  | other hattributes hmodifiers hlead hother =>
    exact (reaches_readAttributes hattributes).1.trans
      ((reaches_readModifiers hmodifiers).trans (reaches_readOther hother))
  | cases hattributes hmodifiers hlead hcases =>
    exact (reaches_readAttributes hattributes).1.trans ((reaches_readModifiers hmodifiers).trans
      ((reaches_lead_cases hlead).trans (reaches_readCases hcases)))

theorem Reads.reaches {limit : Int} {levels : Nat} {closing : Option Char}
    {ds : List Declaration} (h : Reads limit levels closing c ds c') : c.Reaches c' := by
  induction h with
  | done htrivia _ => exact reaches_skipTrivia htrivia
  | semicolon htrivia _ _ _ ih =>
    exact (reaches_skipTrivia htrivia).trans ((reaches_advance _ 1).trans ih)
  | leaf htrivia _ hleaf _ _ ih =>
    exact (reaches_skipTrivia htrivia).trans ((reaches_readsLeaf hleaf).trans ih)
  | @type _ _ _ c₁ brace close _ _ _ _ _ _ _ _ htrivia _ hopening _ _ _ ihMembers ih =>
    exact (reaches_skipTrivia htrivia).trans ((reaches_readsOpening hopening).1.trans
      ((reaches_advance brace 1).trans (ihMembers.trans ((reaches_advance close 1).trans ih))))

/-- A type is read if its opening, its members and what follows are. -/
theorem Reads.of_opening {limit : Int} {levels : Nat} {closing : Option Char}
    {c₁ brace close : Cursor} {kind : TypeKind} {name : String} {attributes : List Attribute}
    {modifiers inheritance : List String} {members ds : List Declaration}
    (htrivia : skipTrivia c = .ok c₁) (hat : AtDeclaration closing c₁)
    (hopening : ReadsOpening c₁ kind name attributes modifiers inheritance brace)
    (hmembers : Reads limit levels (some '\x7d') (brace.advance 1) members close)
    (hrest : Reads limit (levels + 1) closing (close.advance 1) ds c') :
    Reads limit (levels + 1) closing c
      (.type { kind, name, attributes, modifiers, inheritance,
               span := ⟨c₁.pos, (close.advance 1).pos⟩,
               body := ⟨brace.pos, (close.advance 1).pos⟩ } members :: ds) c' := by
  refine .type htrivia hat hopening ?_ hmembers hrest
  have hbody := hopening.body_shorter
  have hclose := hmembers.length_le
  rw [length_advance]
  omega

/-- What closes a body is found where the reading of it stops. -/
theorem Reads.next? {limit : Int} {levels : Nat} {closing : Option Char} {ds : List Declaration}
    (h : Reads limit levels closing c ds c') : c'.next? = closing := by
  induction h with
  | done _ hclosing => exact hclosing
  | semicolon _ _ _ _ ih => exact ih
  | leaf _ _ _ _ _ ih => exact ih
  | type _ _ _ _ _ _ _ ih => exact ih

end Swift

end LocalizedKeys
