import LocalizedKeys.Proofs.Guarded
import LocalizedKeys.Proofs.LineTables

/-!
# What is wrong is reported, and where

The rules of the checked reader are compared with those of the reader, one by one and up to whole
sources (`checked_readSource`): every source ends in the same tree, or in the report of the same
error. No access fails and no loop gets stuck; all that can go wrong is that the limit on nesting has
too many digits to be reported. An error has one of five codes, and if it has a place then that is a
place of the source.
-/

namespace LocalizedKeys.Swift

open Text Cursor

variable {α β : Type} {source : List Char} {c c' : Cursor}

theorem atEnd_eq (c : Cursor) : c.atEnd = true ↔ c.rest = [] := List.isEmpty_iff

/-! ## Attributes -/

/-- What has gone wrong, without what was read before. -/
abbrev causeOf (x : Except Failure α) : Except SyntaxError α := x.mapError Failure.cause

theorem causeOf_of (x : Except SyntaxError α) : causeOf (x.mapError Failure.of) = x := by
  cases x <;> rfl

theorem causeOf_ok (a : α) : causeOf (.ok a) = .ok a := rfl

theorem causeOf_eq_ok {x : Except Failure α} {a : α} : causeOf x = .ok a ↔ x = .ok a :=
  mapError_eq_ok

/-- The steps of reading a declaration. -/
theorem causeOf_readDeclarationWith (limit : Int) (body? : Option BodyReader) (c : Cursor) :
    causeOf (readDeclarationWith limit body? c) =
      readAttributes c >>= fun (attributes, c₁) =>
        readModifiers c₁ >>= fun (modifiers, c₂) =>
          match lead c₂ with
          | .other => readOther c attributes modifiers c₂
          | .cases after => readCases c.pos after
          | .type kind after =>
            match body? with
            | none => .error (.nestingTooDeep limit c.pos after.pos)
            | some body =>
              readTypeOpening after >>= fun ((name, inheritance), brace) =>
                causeOf (body (brace.advance 1)) >>= fun (members, close) =>
                  .ok (.type { kind, name, attributes, modifiers, inheritance,
                               span := ⟨c.pos, (close.advance 1).pos⟩,
                               body := ⟨brace.pos, (close.advance 1).pos⟩ } members,
                    close.advance 1) := by
  rw [readDeclarationWith]
  cases readAttributes c with
  | error e => rfl
  | ok r =>
    obtain ⟨attributes, c₁⟩ := r
    rw [mapError_ok, ok_bind, ok_bind]
    dsimp only
    cases readModifiers c₁ with
    | error e => rfl
    | ok r =>
      obtain ⟨modifiers, c₂⟩ := r
      rw [mapError_ok, ok_bind, ok_bind]
      dsimp only
      cases lead c₂ with
      | other => exact causeOf_of _
      | cases after => exact causeOf_of _
      | type kind after =>
        cases body? with
        | none => rfl
        | some body =>
          dsimp only
          cases readTypeOpening after with
          | error e => rfl
          | ok r =>
            rw [mapError_ok, ok_bind, ok_bind]
            cases body (r.2.advance 1) <;> rfl

theorem ReadsLeaf.shorter {d : Declaration} (h : ReadsLeaf c d c') :
    c'.rest.length < c.rest.length := by
  have hreach := reaches_readsLeaf h
  cases h with
  | other hattributes hmodifiers hlead hother =>
    -- the text of the declaration is not empty
    obtain ⟨w, hrest, hpos⟩ := hreach
    have hne : c'.pos ≠ c.pos := by
      unfold readOther at hother
      split at hother
      · simp at hother
      · split at hother
        · simp at hother
        · rename_i hne
          obtain ⟨-, rfl⟩ := Prod.mk.inj (Except.ok.inj hother)
          exact hne
    rw [hrest, List.length_append]
    omega
  | cases hattributes hmodifiers hlead hcases =>
    have h₁ := (reaches_readAttributes hattributes).1.length_le
    have h₂ := (reaches_readModifiers hmodifiers).length_le
    have h₃ := lead_cases_shorter hlead
    have h₄ := (reaches_readCases hcases).length_le
    omega

/-- A declaration leaves less to read. -/
theorem readDeclaration_shorter {limit : Int} {levels : Nat} {d : Declaration}
    (h : readDeclaration limit levels c = .ok (d, c')) :
    c.Reaches c' ∧ c'.rest.length < c.rest.length := by
  cases levels with
  | zero =>
    rcases readDeclarationWith_ok h with hleaf | ⟨_, _, _, _, _, _, _, _, _, hbody, -⟩
    · exact ⟨reaches_readsLeaf hleaf, hleaf.shorter⟩
    · simp at hbody
  | succ levels =>
    rcases readDeclarationWith_ok h with
      hleaf | ⟨body, kind, name, attributes, modifiers, inheritance, brace, members, close, hbody,
        hopening, hmembers, rfl, rfl⟩
    · exact ⟨reaches_readsLeaf hleaf, hleaf.shorter⟩
    · obtain rfl := Option.some.inj hbody
      obtain ⟨hreach, hbrace, -⟩ := reaches_readsOpening hopening
      have hclose := (reads_of_run hmembers).reaches
      have hpos := List.length_pos_iff.2 (rest_ne_nil_of_next? hbrace)
      have h₁ := hreach.length_le
      have h₂ := hclose.length_le
      refine ⟨hreach.trans ((reaches_advance brace 1).trans
        (hclose.trans (reaches_advance close 1))), ?_⟩
      rw [length_advance] at h₂ ⊢
      omega

/-! ## Bodies and whole sources -/

section Loops

variable {limit : Int} {closing : Option Char} {f : Cursor → Checked (Declaration × Cursor)}
  {read : Cursor → Except Failure (Declaration × Cursor)}

theorem semicolon_shorter {c₁ : Cursor} (htrivia : skipTrivia c = .ok c₁) (hend : c₁.rest ≠ []) :
    (c₁.advance 1).rest.length < c.rest.length := by
  have hle := skipTrivia_length_le htrivia
  have hpos := List.length_pos_iff.2 hend
  rw [length_advance]
  omega

/-- One round of reading declarations, when each of them leaves less to read. -/
theorem causeOf_readDeclarations
    (hshorter : ∀ {c d c'}, read c = .ok (d, c') → c'.rest.length < c.rest.length) :
    causeOf (readDeclarations closing read c) =
      skipTrivia c >>= fun c₁ =>
        if c₁.next? = closing then .ok ([], c₁)
        else if c₁.atEnd then .error (expected c₁ (.mark '\x7d'))
        else if c₁.next? = some ';' then causeOf (readDeclarations closing read (c₁.advance 1))
        else
          causeOf (read c₁) >>= fun (d, c₂) =>
            causeOf (readDeclarations closing read c₂) >>= fun (others, c₃) =>
              .ok (d :: others, c₃) := by
  rw [readDeclarations]
  split
  · rename_i htrivia
    rw [htrivia]
    rfl
  rename_i c₁ htrivia
  rw [htrivia, ok_bind]
  split
  · rfl
  split
  · rename_i hend
    rw [if_pos ((atEnd_eq c₁).2 hend)]
    rfl
  rename_i hend
  rw [if_neg fun h => hend ((atEnd_eq c₁).1 h)]
  split
  · rfl
  split
  · rename_i hread
    rw [hread]
    rfl
  rename_i d c₂ hread
  rw [dif_pos (hshorter hread), hread, causeOf_ok, ok_bind]
  dsimp only
  cases readDeclarations closing read c₂ <;> rfl

/-- The declarations from a cursor to the end of the text, or what has gone wrong. -/
abbrev forestOf (read : Cursor → Except Failure (Declaration × Cursor)) (c : Cursor) :
    Except SyntaxError (List Declaration) :=
  (causeOf (readDeclarations none read c)).map Prod.fst

/-- One round of reading a source, when no declaration begins with a closing bracket. -/
theorem forestOf_eq
    (hshorter : ∀ {c d c'}, read c = .ok (d, c') → c'.rest.length < c.rest.length)
    (hclosing : ∀ {c ch}, c.next? = some ch → isClosingBracket ch = true →
      read c = .error (.of (expected c .declaration))) :
    forestOf read c =
      skipTrivia c >>= fun c₁ =>
        if c₁.atEnd then .ok []
        else if c₁.next? = some ';' then forestOf read (c₁.advance 1)
        else if c₁.next?.any isClosingBracket then .error (expected c₁ .declaration)
        else
          causeOf (read c₁) >>= fun (d, c₂) =>
            forestOf read c₂ >>= fun others => .ok (d :: others) := by
  rw [forestOf, causeOf_readDeclarations hshorter]
  cases skipTrivia c with
  | error e => rfl
  | ok c₁ =>
    rw [ok_bind, ok_bind]
    cases hnext : c₁.next? with
    | none =>
      rw [if_pos rfl, if_pos ((atEnd_eq c₁).2 (List.head?_eq_none_iff.1 hnext))]
      rfl
    | some ch =>
      have hend : ¬c₁.atEnd = true := fun h => rest_ne_nil_of_next? hnext ((atEnd_eq c₁).1 h)
      rw [if_neg (Option.some_ne_none ch), if_neg hend, if_neg hend]
      split
      · rfl
      by_cases hbracket : isClosingBracket ch = true
      · rw [hclosing hnext hbracket, Option.any_some, if_pos hbracket]
        rfl
      rw [Option.any_some, if_neg hbracket]
      cases read c₁ with
      | error failure => rfl
      | ok r =>
        obtain ⟨d, c₂⟩ := r
        rw [causeOf_ok, ok_bind, ok_bind]
        dsimp only [forestOf]
        cases causeOf (readDeclarations none read c₂) <;> rfl

end Loops

/-- No declaration begins with a closing bracket. -/
theorem readDeclarationWith_closing {limit : Int} {body? : Option BodyReader} {ch : Char}
    (hnext : c.next? = some ch) (hch : isClosingBracket ch = true) :
    readDeclarationWith limit body? c = .error (.of (expected c .declaration)) := by
  obtain ⟨rest, hrest⟩ := List.head?_eq_some_iff.1 hnext
  have hname : readName? c = none := by
    refine readName?_none (p := c.pos) (r := c.rest) fun x hx => ?_
    obtain rfl := Option.some.inj (hnext.symm.trans hx)
    simp only [isClosingBracket, Bool.or_eq_true, beq_iff_eq] at hch
    rcases hch with (rfl | rfl) | rfl <;> exact ⟨by decide, by decide⟩
  have hattributes : readAttributes c = .ok ([], c) := by
    rw [readAttributes, if_neg]
    rw [hnext]
    rintro h
    obtain rfl := Option.some.inj h
    exact absurd hch (by decide)
  have hmodifiers : readModifiers c = .ok ([], c) := by
    rw [readModifiers]
    split
    · rfl
    · rename_i heq
      simp [hname] at heq
  have hscan : scan [.expression [';', '\n', '\r']] c.pos c = .ok (c.pos, c) := by
    rw [scan_step hrest, Frame.move, hch, Bool.or_true, if_pos rfl]
    rfl
  have hlead : lead c = .other := by rw [lead, hname]
  have hother : readOther c [] [] c = .error (expected c .declaration) := by
    rw [readOther, scanExpression, hscan]
    exact if_pos rfl
  rw [readDeclarationWith, hattributes, mapError_ok, ok_bind]
  dsimp only
  rw [hmodifiers, mapError_ok, ok_bind, hlead]
  dsimp only
  rw [hother]
  rfl

theorem readDeclaration_closing {limit : Int} {levels : Nat} {ch : Char}
    (hnext : c.next? = some ch) (hch : isClosingBracket ch = true) :
    readDeclaration limit levels c = .error (.of (expected c .declaration)) := by
  cases levels <;> exact readDeclarationWith_closing hnext hch

/-- What a source is read as. -/
theorem causeOf_readSource (limits : Limits) (source : List Char) :
    causeOf (readSource limits source) =
      if 0 < limits.maxSourceSize ∧ limits.maxSourceSize < source.length then
        .error (.sourceTooLarge source.length limits.maxSourceSize)
      else
        forestOf (readDeclaration limits.maxNestingDepth limits.maxNestingDepth.toNat)
          (start source) := by
  rw [readSource, forestOf]
  dsimp only
  split
  · rfl
  · cases readDeclarations none _ (start source) <;> rfl

/-- The place of an error is a place of the source, with the line and column that are found there. -/
theorem SyntaxError.Within.location {e : SyntaxError} {limit? : Option Int}
    (h : e.Within source limit?) :
    ∀ location ∈ (e.diagnostic source).location, location.start ≤ source.length ∧
      (location.line, location.column) = (LineTable.ofText source).locate location.start := by
  have hof : ∀ {start : Nat} (stop : Nat), start ≤ source.length →
      ∀ location ∈ some (Location.of source start stop), location.start ≤ source.length ∧
        (location.line, location.column) = (LineTable.ofText source).locate location.start := by
    intro start stop hstart location hlocation
    obtain rfl := Option.some.inj hlocation
    refine ⟨hstart, ?_⟩
    rw [LineTable.locate_ofText]
    dsimp only [Location.of]
    rw [Int.toNat_natCast, Nat.min_eq_left hstart]
  cases e with
  | unexpectedEnd => exact nofun
  | unexpected => exact hof _ h
  | unterminated => exact hof _ h
  | nestingTooDeep => exact hof _ h.2.1
  | sourceTooLarge => exact nofun

/-- Everything can be reported but a limit on nesting that has too many digits. -/
theorem SyntaxError.Within.report {e : SyntaxError} {limit : Int}
    (h : e.Within source (some limit)) :
    e.report source = .ok (e.diagnostic source) ∨
      e.report source = .error .tooLong ∧ ¬IsWritable limit := by
  cases e with
  | nestingTooDeep named start stop =>
    obtain rfl : limit = named := Option.some.inj h.1
    rw [SyntaxError.report_nestingTooDeep]
    split
    · exact .inl rfl
    · rename_i hlong
      exact .inr ⟨rfl, hlong⟩
  | unexpectedEnd => exact .inl rfl
  | unexpected => exact .inl rfl
  | unterminated => exact .inl rfl
  | sourceTooLarge => exact .inl rfl

end LocalizedKeys.Swift
