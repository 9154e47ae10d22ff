import LocalizedKeys.Proofs.Calls
import LocalizedKeys.Proofs.Spans

/-!
# The reader makes progress

Whatever is read successfully ends further on in the source than it began, and never past its end:
comments, string literals, bracketed groups, names, attributes, argument lists, case lists and
declarations take at least one character; white space, expressions and bodies may be empty, but do
not go back. So none of the recursions of the reader can go on forever (`reader_progresses`).
-/

namespace LocalizedKeys

namespace Cursor

/-- `c'` is a place of the text, and one after `c`. -/
def Further (text : List Char) (c c' : Cursor) : Prop := c'.At text ∧ c.pos < c'.pos

/-- `c'` is a place of the text, and none before `c`. -/
def NotBack (text : List Char) (c c' : Cursor) : Prop := c'.At text ∧ c.pos ≤ c'.pos

theorem seek_at (text : List Char) (pos : Nat) : (seek text pos).At text := by
  refine ⟨Nat.min_le_right _ _, ?_⟩
  by_cases hpos : pos ≤ text.length
  · rw [seek, Nat.min_eq_left hpos]
  · rw [seek, Nat.min_eq_right (by omega), List.drop_length, List.drop_eq_nil_of_le (by omega)]

variable {text : List Char} {c c' : Cursor}

theorem Reaches.notBack (h : c.Reaches c') (hc : c.At text) : NotBack text c c' :=
  ⟨h.at_of hc, h.pos_le⟩

theorem Reaches.further (h : c.Reaches c') (hshorter : c'.rest.length < c.rest.length)
    (hc : c.At text) : Further text c c' :=
  ⟨h.at_of hc, Swift.pos_lt_of_length_lt hc (h.at_of hc) hshorter⟩

end Cursor

namespace Swift

open Cursor

variable {c c' : Cursor}

/-! ## What takes at least one character -/

theorem readArgumentList_shorter {as : List Argument} (h : readArgumentList c = .ok (as, c')) :
    c'.rest.length < c.rest.length := by
  unfold readArgumentList at h
  split at h
  · simp at h
  rename_i c₁ htrivia
  have hle := ((reaches_advance c 1).trans (reaches_skipTrivia htrivia)).length_le
  split at h
  · rename_i hclose
    obtain ⟨-, rfl⟩ := Prod.mk.inj (Except.ok.inj h)
    exact Nat.lt_of_lt_of_le (advance_shorter hclose) hle
  · exact Nat.lt_of_lt_of_le (readArguments_closed h) hle

theorem readCaseElements_shorter {elements : List CaseElement}
    (h : readCaseElements c = .ok (elements, c')) : c'.rest.length < c.rest.length := by
  unfold readCaseElements at h
  split at h
  · simp at h
  rename_i element c₁ helement
  have hlt := readCaseElement_shorter helement
  split at h
  · split at h
    · simp at h
    rename_i others c₂ hothers
    obtain ⟨-, rfl⟩ := Prod.mk.inj (Except.ok.inj h)
    have hle := ((reaches_advance c₁ 1).trans (reaches_readCaseElements hothers)).length_le
    omega
  · obtain ⟨-, rfl⟩ := Prod.mk.inj (Except.ok.inj h)
    exact hlt

theorem readCases_shorter {start : Nat} {d : Declaration} (h : readCases start c = .ok (d, c')) :
    c'.rest.length < c.rest.length := by
  unfold readCases at h
  split at h
  · simp at h
  · rename_i helements
    obtain ⟨-, rfl⟩ := Prod.mk.inj (Except.ok.inj h)
    exact readCaseElements_shorter helements

/-! ## Every call -/

/-- What is read at a cursor of a source does not go back, and moves on where it cannot be empty. -/
structure Progresses (source : List Char) (c : Cursor) : Prop where
  blockComment : ∀ {c' : Cursor}, skipBlockComment c = .ok c' → c.Further source c'
  literal : ∀ {c' : Cursor}, skipStringLiteral c = .ok c' → c.Further source c'
  group : ∀ {close : Char} {c' : Cursor}, skipGroup close c = .ok c' → c.Further source c'
  name : ∀ {name : String} {c' : Cursor}, readName? c = some (name, c') → c.Further source c'
  attr : ∀ {a : Attribute} {c' : Cursor}, readAttribute c = .ok (a, c') →
    c.Further source c'
  arguments : ∀ {as : List Argument} {c' : Cursor}, readArgumentList c = .ok (as, c') →
    c.Further source c'
  cases : ∀ {start : Nat} {d : Declaration} {c' : Cursor}, readCases start c = .ok (d, c') →
    c.Further source c'
  declaration : ∀ {limit : Int} {levels : Nat} {d : Declaration} {c' : Cursor},
    readDeclaration limit levels c = .ok (d, c') → c.Further source c'
  trivia : ∀ {c' : Cursor}, skipTrivia c = .ok c' → c.NotBack source c'
  inlineTrivia : ∀ {c' : Cursor}, skipInlineTrivia c = .ok c' → c.NotBack source c'
  expression : ∀ {stops : List Char} {text : String} {c' : Cursor},
    scanExpression stops c = .ok (text, c') → c.NotBack source c'
  members : ∀ {limit : Int} {levels : Nat} {ds : List Declaration} {c' : Cursor},
    readBody limit levels c = .ok (ds, c') → c.NotBack source c'

theorem progresses {source : List Char} (hc : c.At source) : Progresses source c where
  blockComment h := (skipBlockComment_shorter h).1.further (skipBlockComment_shorter h).2 hc
  literal h := (skipStringLiteral_shorter h).1.further (skipStringLiteral_shorter h).2 hc
  group h := (skipGroup_shorter h).1.further (skipGroup_shorter h).2 hc
  name h := (reaches_readName? h).further (readName?_shorter h) hc
  attr h := (reaches_readAttribute h).further (readAttribute_shorter h) hc
  arguments h := (reaches_readArgumentList h).further (readArgumentList_shorter h) hc
  cases h := (reaches_readCases h).further (readCases_shorter h) hc
  declaration h := (readDeclaration_shorter h).1.further (readDeclaration_shorter h).2 hc
  trivia h := (reaches_skipTrivia h).notBack hc
  inlineTrivia h := (reaches_skipInlineTrivia h).notBack hc
  expression h := (reaches_scanExpression h).notBack hc
  members h := (reads_of_run h).reaches.notBack hc

/-- **The reader always makes progress.** At every place of a source, what is read successfully ends
further on in it, or not further back where it may be empty. So the calls between expressions and
string literals, and those between declarations and bodies, come to an end at every place, and so
does the reading of the source as a whole, whatever stands in it: there are never more of them open
than twice the length of the source and two. -/
theorem reader_progresses (source : List Char) (pos more : Nat) :
    Progresses source (seek source pos) ∧
      Terminates (2 * source.length + 2 + more) (seek source pos) ∧
      ∀ limits : Limits,
        Limited.readSource (2 * source.length + 2 + more) limits source
          = ends (causeOf (readSource limits source)) := by
  have hat := seek_at source pos
  have hlength := hat.pos_add_length
  exact ⟨progresses hat, terminates (by omega), fun limits => readSource_ends (by omega)⟩

end Swift

end LocalizedKeys
