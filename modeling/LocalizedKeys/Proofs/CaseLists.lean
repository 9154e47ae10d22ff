import LocalizedKeys.Proofs.Moved
import LocalizedKeys.Proofs.Printed

/-!
# Case lists as they are written

The elements of a case declaration may be written with trivia in front of each name, in front of
associated values, on both sides of an equals sign and on both sides of each comma. `CaseList`
says of a text that it is such a list, in front of what follows it. The reader finds all elements
of a list and nothing else if what stands in front of each comma stays on the line
(`readCaseElements_text`).

It is not so with a line end in front of a comma, although one behind it does no harm: an element
ends with its line, so the declaration ends in front of such a comma, and what comes next is read
as a declaration of its own that is kept as text.
-/

namespace LocalizedKeys.Swift

open Text

/-- The stop characters of raw values. -/
abbrev rawValueStops : List Char := [',', ';', '\n', '\r']

/-! ## The grammar of a list -/

/-- Associated values in front of `r`, or nothing. -/
inductive ValuesText : List Char → List Char → Prop
  | none {r : List Char} : ValuesText [] r
  | group {w inner r : List Char} {k : Nat} :
      InlineTrivia w ('(' :: (inner ++ ')' :: r)) → PassesExpression [] inner k (')' :: r) →
      ValuesText (w ++ '(' :: (inner ++ [')'])) r

/-- A raw value with its equals sign in front of `r`, or nothing. The trivia around the value is
no part of it: there is no white space at its ends, it begins with no comment, and the last thing
in it counts. -/
inductive RawValueText : List Char → Option String → List Char → Prop
  | none {r : List Char} : RawValueText [] none r
  | value {w w' v r : List Char} :
      InlineTrivia w ('=' :: (w' ++ (v ++ r))) → InlineTrivia w' (v ++ r) → v ≠ [] →
      trim v = v → InlineSolid (v ++ r) → PassesExpression rawValueStops v v.length r →
      RawValueText (w ++ '=' :: (w' ++ v)) (some (String.ofList v)) r

/-- A case element in front of `r`. -/
inductive ElementText : List Char → ElementOutline → List Char → Prop
  | mk {name values raw r : List Char} {rawValue : Option String} :
      IsName name → ValuesText values (raw ++ r) → RawValueText raw rawValue r →
      ElementText (name ++ (values ++ raw)) ⟨String.ofList name, rawValue⟩ r

/-- Case elements with commas between them in front of `r`. Any trivia may stand behind a comma
and in front of the first element; in front of a comma it stays on the line. -/
inductive CaseList : List Char → List ElementOutline → List Char → Prop
  | one {gap t r : List Char} {e : ElementOutline} :
      Trivia gap (t ++ r) → ElementText t e r → CaseList (gap ++ t) [e] r
  | more {gap t w text r : List Char} {e : ElementOutline} {es : List ElementOutline} :
      Trivia gap (t ++ (w ++ ',' :: (text ++ r))) → ElementText t e (w ++ ',' :: (text ++ r)) →
      InlineTrivia w (',' :: (text ++ r)) → CaseList text es r →
      CaseList (gap ++ (t ++ (w ++ ',' :: text))) (e :: es) r

/-! ## What may follow an element -/

theorem InlineTrivia.nameEnd {w r : List Char} (h : InlineTrivia w r) (hr : NameEnd r) :
    NameEnd (w ++ r) := by
  cases h with
  | nil => exact hr
  | blank hch _ =>
    refine .cons _ (isNamePart_of_isSpace (isSpace_of_isLayout ?_))
    simp [isLayout, hch]
  | line => exact .cons _ (by decide)
  | block => exact .cons _ (by decide)

variable {w r : List Char}

/-- The characters in front of which a raw value ends. -/
theorem mem_of_endsRawValue {ch : Char} (hr : EndsExpression rawValueStops (ch :: r)) :
    ch ∈ [',', ';', '\n', '\r', ')', ']', '\x7d'] := by
  have h := hr ch rfl
  simp only [rawValueStops, isClosingBracket, List.contains_cons, List.contains_nil, Bool.or_false,
    Bool.or_eq_true, beq_iff_eq] at h
  rcases h with (rfl | rfl | rfl | rfl) | (rfl | rfl) | rfl <;> decide

theorem EndsExpression.inlineSolid (hr : EndsExpression rawValueStops r) : InlineSolid r := by
  cases r with
  | nil => trivial
  | cons ch r =>
    have hmem := mem_of_endsRawValue hr
    have hall : ∀ ch ∈ [',', ';', '\n', '\r', ')', ']', '\x7d'], ch ≠ '/' ∧ isBlank ch = false := by
      decide
    exact .of_head (hall ch hmem).1 (hall ch hmem).2

theorem EndsExpression.nameEnd (hr : EndsExpression rawValueStops r) : NameEnd r := by
  cases r with
  | nil => intro ch hch; simp at hch
  | cons ch r =>
    have hmem := mem_of_endsRawValue hr
    have hall : ∀ ch ∈ [',', ';', '\n', '\r', ')', ']', '\x7d'], isNamePart ch = false := by decide
    exact .cons _ (hall ch hmem)

theorem EndsExpression.head_ne {d : Char} (hr : EndsExpression rawValueStops r)
    (hd : d ∉ [',', ';', '\n', '\r', ')', ']', '\x7d']) : r.head? ≠ some d := by
  cases r with
  | nil => simp
  | cons ch r =>
    intro h
    obtain rfl := Option.some.inj h
    exact hd (mem_of_endsRawValue hr)

/-! ## Elements -/

theorem admits_blank (ch : Char) (h : isBlank ch = true) :
    (Frame.expression rawValueStops).Admits ch := by
  intro hmem
  have hall : ∀ ch ∈ rawValueStops, isBlank ch = false := by decide
  simp [hall ch hmem] at h

/-- What stands behind the name and the associated values of an element is passed: trivia, and
then the raw value if there is one. -/
theorem readRawValue_text {raw : List Char} {rawValue : Option String}
    (h : RawValueText raw rawValue (w ++ r)) (hw : InlineTrivia w r)
    (hr : EndsExpression rawValueStops r) :
    ∃ front back, raw ++ (w ++ r) = front ++ back ∧ InlineTrivia front back ∧
      InlineSolid back ∧ NameEnd back ∧ back.head? ≠ some '(' ∧
      ∀ p, ∃ p', readRawValue ⟨p, back⟩ = .ok (rawValue, ⟨p', r⟩) := by
  cases h with
  | none =>
    refine ⟨w, r, rfl, hw, hr.inlineSolid, hr.nameEnd, hr.head_ne (by decide), fun p => ⟨p, ?_⟩⟩
    have hequals : r.head? ≠ some '=' := hr.head_ne (by decide)
    exact if_neg hequals
  | @value w₁ w₂ v _ hw₁ hw₂ hne htrim hsolid hpasses =>
    refine ⟨w₁, '=' :: (w₂ ++ (v ++ (w ++ r))), by simp, hw₁, .of_head (by decide) (by decide),
      .cons _ (by decide), by simp, fun p => ⟨p + 1 + w₂.length + (v ++ w).length, ?_⟩⟩
    have hempty : (String.ofList v).isEmpty = false := by simpa using hne
    -- the trivia behind the value is passed with it, up to what ends the element
    have hscan := scanExpression_text
      (hpasses.append (passes_inlineTrivia hw admits_blank (by decide) [])) hr
      (p + 1 + w₂.length)
    rw [lastCounted_zero, List.take_left, htrim, List.append_assoc] at hscan
    simp only [readRawValue, Cursor.next?, List.head?_cons, if_true, Cursor.advance_one_cons,
      skipInlineTrivia_text hw₂ hsolid, hscan, hempty, skipInlineTrivia_solid hr.inlineSolid]
    rfl

/-- What stands behind the name of an element is passed up to the raw value, and no further. -/
theorem skipAssociatedValues_text {values front back : List Char}
    (h : ValuesText values (front ++ back)) (hfront : InlineTrivia front back)
    (hsolid : InlineSolid back) (hname : NameEnd back) (hparen : back.head? ≠ some '(') :
    ∃ front' back', values ++ (front ++ back) = front' ++ back' ∧ InlineTrivia front' back' ∧
      InlineSolid back' ∧ NameEnd back' ∧
      ∀ p, ∃ p', skipAssociatedValues ⟨p, back'⟩ = .ok ⟨p', back⟩ := by
  cases h with
  | none =>
    exact ⟨front, back, rfl, hfront, hsolid, hname, fun p => ⟨p, if_neg hparen⟩⟩
  | @group w inner _ k hw hpasses =>
    refine ⟨w, '(' :: (inner ++ ')' :: (front ++ back)), by simp, hw,
      .of_head (by decide) (by decide), .cons _ (by decide),
      fun p => ⟨p + (inner.length + 2) + front.length, ?_⟩⟩
    have hgroup := skipGroup_text (o := '(') hpasses rfl p
    simp only [skipAssociatedValues, Cursor.next?, List.head?_cons, if_true, hgroup]
    exact skipInlineTrivia_text hfront hsolid _

theorem ElementText.begins {t : List Char} {e : ElementOutline} (h : ElementText t e r) :
    BeginsToken t := by
  cases h with
  | mk hname _ _ => exact hname.begins.append _

/-- An element is read with the trivia around it, up to what ends it. -/
theorem readCaseElement_text {gap t : List Char} {e : ElementOutline}
    (hgap : Trivia gap (t ++ (w ++ r))) (ht : ElementText t e (w ++ r)) (hw : InlineTrivia w r)
    (hr : EndsExpression rawValueStops r) (p : Nat) :
    ∃ element p', readCaseElement ⟨p, gap ++ (t ++ (w ++ r))⟩ = .ok (element, ⟨p', r⟩) ∧
      element.outline = e := by
  have hstart := skipTrivia_text hgap (ht.begins.append _).solid p
  cases ht with
  | @mk name values raw _ rawValue hname hvalues hraw =>
    obtain ⟨front, back, hsplit, hfront, hsolid, hend, hparen, hread⟩ :=
      readRawValue_text hraw hw hr
    rw [hsplit] at hvalues
    obtain ⟨front', back', hsplit', hfront', hsolid', hend', hskip⟩ :=
      skipAssociatedValues_text hvalues hfront hsolid hend hparen
    have hbehind : (name ++ (values ++ raw)) ++ (w ++ r) = name ++ (front' ++ back') := by
      rw [← hsplit', ← hsplit]
      simp only [List.append_assoc]
    rw [hbehind] at hstart ⊢
    have hword := readName?_append hname (hfront'.nameEnd hend') (p + gap.length)
    have hinline := skipInlineTrivia_text hfront' hsolid' (p + gap.length + name.length)
    obtain ⟨p₁, hp₁⟩ := hskip (p + gap.length + name.length + front'.length)
    obtain ⟨p₂, hp₂⟩ := hread p₁
    refine ⟨⟨String.ofList name, rawValue, ⟨p + gap.length, p₂⟩⟩, p₂, ?_, rfl⟩
    simp only [readCaseElement, hstart, hword, hinline, hp₁, hp₂]

/-! ## Lists -/

theorem endsRawValue_comma (r : List Char) : EndsExpression rawValueStops (',' :: r) := by
  intro ch hch
  obtain rfl := Option.some.inj hch
  rfl

/-- All elements of a list are read, and nothing else, if the list ends with the line or the
body. -/
theorem readCaseElements_text {text : List Char} {es : List ElementOutline}
    (h : CaseList text es (w ++ r)) (hw : InlineTrivia w r) (hr : EndsExpression rawValueStops r)
    (hcomma : r.head? ≠ some ',') (p : Nat) :
    ∃ elements p', readCaseElements ⟨p, text ++ (w ++ r)⟩ = .ok (elements, ⟨p', r⟩) ∧
      elements.map CaseElement.outline = es := by
  generalize hbehind : w ++ r = behind at h
  induction h generalizing p with
  | one hgap ht =>
    subst hbehind
    obtain ⟨element, p', hread, rfl⟩ := readCaseElement_text hgap ht hw hr p
    rw [← List.append_assoc] at hread
    exact ⟨[element], p', readCaseElements_last hread hcomma, rfl⟩
  | @more gap t w' text _ e es hgap ht hw' _ ih =>
    subst hbehind
    obtain ⟨element, p₁, hread, rfl⟩ :=
      readCaseElement_text hgap ht hw' (endsRawValue_comma _) p
    obtain ⟨elements, p', hothers, rfl⟩ := ih (p₁ + 1) rfl
    rw [← Cursor.advance_one_cons] at hothers
    refine ⟨element :: elements, p', ?_, rfl⟩
    rw [← readCaseElements_more hread rfl hothers]
    simp only [List.append_assoc, List.cons_append]

/-! ## Bodies -/

/-- Trivia is passed on its line first, and what is left of it begins with a line end. -/
theorem Trivia.split (h : Trivia w r) :
    ∃ w₁ w₂, w = w₁ ++ w₂ ∧ InlineTrivia w₁ (w₂ ++ r) ∧ Trivia w₂ r ∧
      ∀ ch ∈ w₂.head?, isLineEnd ch = true := by
  induction h with
  | nil => exact ⟨[], [], rfl, .nil, .nil, by simp⟩
  | @layout ch w r hch hw ih =>
    obtain ⟨w₁, w₂, rfl, hw₁, hw₂, hend⟩ := ih
    by_cases hblank : isBlank ch = true
    · exact ⟨ch :: w₁, w₂, rfl, .blank hblank hw₁, hw₂, hend⟩
    · refine ⟨[], ch :: (w₁ ++ w₂), rfl, .nil, .layout hch hw, fun x hx => ?_⟩
      obtain rfl := Option.some.inj hx
      simpa [isLayout, hblank] using hch
  | @line line w r hline hend hw _ =>
    refine ⟨'/' :: '/' :: line, w, rfl, .line hline hend, hw, fun ch hch => hend ch ?_⟩
    simp [Option.mem_def.1 hch]
  | block hbody _ ih =>
    obtain ⟨w₁, w₂, rfl, hw₁, hw₂, hend⟩ := ih
    exact ⟨_, w₂, by simp, .block hbody hw₁, hw₂, hend⟩

theorem EndsExpression.of_lineEnd (hw : ∀ ch ∈ w.head?, isLineEnd ch = true)
    (hr : EndsExpression rawValueStops r) : EndsExpression rawValueStops (w ++ r) := by
  cases w with
  | nil => exact hr
  | cons ch w =>
    intro x hx
    obtain rfl := Option.some.inj hx
    have hch := hw ch rfl
    simp only [isLineEnd, Bool.or_eq_true, beq_iff_eq] at hch
    rcases hch with rfl | rfl <;> rfl

/-- A body that holds a case list holds one declaration with all of its elements. -/
theorem readBody_of_caseList {lead text rest : List Char} {es : List ElementOutline}
    (hlead : Trivia lead ("case".toList ++ (text ++ (w ++ '\x7d' :: rest))))
    (hkeyword : NameEnd (text ++ (w ++ '\x7d' :: rest)))
    (hlist : CaseList text es (w ++ '\x7d' :: rest)) (hw : Trivia w ('\x7d' :: rest))
    (limit : Int) (levels p : Nat) :
    ∃ ds c', readBody limit levels
        ⟨p, lead ++ ("case".toList ++ (text ++ (w ++ '\x7d' :: rest)))⟩ = .ok (ds, c') ∧
      outlines ds = [.cases es] ∧ c'.rest = '\x7d' :: rest := by
  obtain ⟨w₁, w₂, rfl, hw₁, hw₂, hend⟩ := hw.split
  rw [List.append_assoc] at hlead hkeyword hlist ⊢
  have hbrace : EndsExpression rawValueStops ('\x7d' :: rest) := by
    intro ch hch
    obtain rfl := Option.some.inj hch
    rfl
  have hends : EndsExpression rawValueStops (w₂ ++ '\x7d' :: rest) := hbrace.of_lineEnd hend
  have hcomma : (w₂ ++ '\x7d' :: rest).head? ≠ some ',' := by
    cases w₂ with
    | nil => simp
    | cons ch w₂ =>
      intro h
      obtain rfl := Option.some.inj h
      exact absurd (hend ',' rfl) (by decide)
  have hleaf := spellsLeaf_case hkeyword (readCaseElements_text hlist hw₁ hends hcomma)
  have hdone : Spells limit levels (some '\x7d') (w₂ ++ '\x7d' :: rest) [] ('\x7d' :: rest) :=
    .done hw₂ (.of_head (by decide) (by decide)) rfl
  have hspells := Spells.leaf hlead (.of_head (by decide) (by decide)) (by simp) (by simp) hleaf
    (by
      simp only [List.length_append, String.length_toList, show "case".length = 4 from rfl]
      omega)
    hdone
  obtain ⟨ds, c', hreads, houtlines, hrest⟩ := hspells p
  exact ⟨ds, c', hreads.run, houtlines, hrest⟩

theorem head?_trim {ch : Char} {cs : List Char} (h : isSpace ch = false) :
    (trim (ch :: cs)).head? = some ch := by
  rw [trim, List.dropWhile_cons_of_neg (by simp [h]), dropWhileEnd, List.head?_reverse,
    List.reverse_cons, List.dropWhile_append]
  split
  · simp [h]
  · simp

/-- What is read at a comma is kept as text. -/
theorem readDeclaration_comma {limit : Int} {levels : Nat} {c c' : Cursor} {d : Declaration}
    (hc : c.next? = some ',') (h : readDeclaration limit levels c = .ok (d, c')) :
    ∃ kept span, d = .other kept [] [] span ∧ kept.toList.head? = some ',' := by
  have hattributes := readAttributes_nil (c := c) (by simp [hc])
  have hname : readName? c = none := by
    obtain ⟨p, rest⟩ := c
    refine readName?_none (fun ch hch => ?_) p
    obtain rfl := Option.some.inj (hc.symm.trans hch)
    decide
  have hmodifiers := readModifiers_noName hname
  have hlead : lead c = .other := by simp [lead, hname]
  have hrun : ∀ body?, readDeclarationWith limit body? c =
      (readOther c [] [] c).mapError Failure.of := by
    intro body?
    simp [readDeclarationWith, bind, Except.bind, mapError_ok, hattributes, hmodifiers, hlead]
  have hother : readOther c [] [] c = .ok (d, c') := by
    cases levels <;> exact mapError_eq_ok.1 ((hrun _).symm.trans h)
  have hreach := reaches_readOther hother
  unfold readOther at hother
  split at hother
  · simp at hother
  · rename_i kept c₁ _
    split at hother
    · simp at hother
    · rename_i hne
      obtain ⟨rfl, rfl⟩ := Prod.mk.inj (Except.ok.inj hother)
      refine ⟨_, _, rfl, ?_⟩
      obtain ⟨rest, hrest⟩ := List.head?_eq_some_iff.1 hc
      obtain ⟨n, hn⟩ : ∃ n, c₁.pos - c.pos = n + 1 :=
        ⟨c₁.pos - c.pos - 1, by have := hreach.pos_le; omega⟩
      rw [String.toList_ofList, Cursor.slice, hn, hrest, List.take_succ_cons]
      exact head?_trim (by decide)

/-- Where a line ends in front of a comma, the declaration ends with the elements before it. -/
theorem readDeclaration_of_caseList {text tail : List Char} {es : List ElementOutline}
    (hkeyword : NameEnd (text ++ (w ++ ',' :: tail))) (hlist : CaseList text es (w ++ ',' :: tail))
    (hw : Trivia w (',' :: tail)) (hbreak : ¬InlineTrivia w (',' :: tail))
    (limit : Int) (levels p : Nat) :
    ∃ d c₁ c₂, readDeclaration limit levels ⟨p, "case".toList ++ (text ++ (w ++ ',' :: tail))⟩
        = .ok (d, c₁) ∧
      d.outline = .cases es ∧ skipTrivia c₁ = .ok c₂ ∧ c₂.rest = ',' :: tail := by
  obtain ⟨w₁, w₂, rfl, hw₁, hw₂, hend⟩ := hw.split
  cases w₂ with
  | nil => exact absurd (by simpa using hw₁) hbreak
  | cons ch w₂ =>
    rw [List.append_assoc] at hkeyword hlist ⊢
    have hch : isLineEnd ch = true := hend ch rfl
    have hends : EndsExpression rawValueStops ((ch :: w₂) ++ ',' :: tail) :=
      (endsRawValue_comma tail).of_lineEnd hend
    have hcomma : ((ch :: w₂) ++ ',' :: tail).head? ≠ some ',' := by
      intro h
      obtain rfl := Option.some.inj h
      exact absurd hch (by decide)
    obtain ⟨d, c₁, hleaf, houtline, hrest⟩ :=
      spellsLeaf_case hkeyword (readCaseElements_text hlist hw₁ hends hcomma) p
    obtain ⟨q, rest⟩ := c₁
    obtain rfl : rest = _ := hrest
    exact ⟨d, _, _, hleaf.run_levels limit levels, houtline,
      skipTrivia_text hw₂ (.of_head (by decide) (by decide)) q, rfl⟩

/-- **A case list is read completely** if a line ends in front of none of its commas: then the
body that holds it holds one declaration, with exactly its elements. Where a line ends in front of
a comma the declaration has the elements before that comma, and what is read at the comma is a
declaration that is kept as text. -/
theorem readBody_caseList {lead text w : List Char} {es : List ElementOutline} (limit : Int)
    (levels p : Nat) :
    (∀ rest, Trivia lead ("case".toList ++ (text ++ (w ++ '\x7d' :: rest))) →
      NameEnd (text ++ (w ++ '\x7d' :: rest)) → CaseList text es (w ++ '\x7d' :: rest) →
      Trivia w ('\x7d' :: rest) →
      ∃ ds c', readBody limit levels
          ⟨p, lead ++ ("case".toList ++ (text ++ (w ++ '\x7d' :: rest)))⟩ = .ok (ds, c') ∧
        outlines ds = [.cases es] ∧ c'.rest = '\x7d' :: rest) ∧
    (∀ tail, NameEnd (text ++ (w ++ ',' :: tail)) → CaseList text es (w ++ ',' :: tail) →
      Trivia w (',' :: tail) → ¬InlineTrivia w (',' :: tail) →
      ∃ d c₁ c₂,
        readDeclaration limit levels ⟨p, "case".toList ++ (text ++ (w ++ ',' :: tail))⟩
          = .ok (d, c₁) ∧
        d.outline = .cases es ∧ skipTrivia c₁ = .ok c₂ ∧ c₂.rest = ',' :: tail ∧
        ∀ d' c', readDeclaration limit levels c₂ = .ok (d', c') →
          ∃ kept span, d' = .other kept [] [] span ∧ kept.toList.head? = some ',') := by
  refine ⟨fun rest hlead hkeyword hlist hw =>
    readBody_of_caseList hlead hkeyword hlist hw limit levels p,
    fun tail hkeyword hlist hw hbreak => ?_⟩
  obtain ⟨d, c₁, c₂, hd, houtline, hskip, hcomma⟩ :=
    readDeclaration_of_caseList hkeyword hlist hw hbreak limit levels p
  refine ⟨d, c₁, c₂, hd, houtline, hskip, hcomma, fun d' c' h => readDeclaration_comma ?_ h⟩
  rw [Cursor.next?, hcomma]
  rfl

/-- A list with a comment and a line end behind its first comma, and a comment in front of its
second one. -/
def annotatedList : List Char :=
  " a, // first\n \x60b\x60(Int) = \"x\" /* second */, c".toList

theorem caseList_annotatedList (r : List Char) :
    CaseList annotatedList [⟨"a", none⟩, ⟨"\x60b\x60", some "\"x\""⟩, ⟨"c", none⟩] r := by
  have hplain : ∀ (n : List Char) (r : List Char), PlainName n →
      ElementText n ⟨String.ofList n, none⟩ r := fun n r hn => by
    simpa using ElementText.mk (r := r) (.inl hn) .none .none
  have hgap : ∀ r : List Char, Trivia " // first\n ".toList r := fun r =>
    .layout rfl (@Trivia.line " first".toList "\n ".toList r (by unfold InLine; decide)
      (fun ch hch => Option.some.inj hch ▸ rfl) (.layout rfl (.layout rfl .nil)))
  have hcomment : ∀ r : List Char, InlineTrivia " /* second */".toList r := fun r =>
    .blank rfl (@InlineTrivia.block " second */".toList [] r rfl .nil)
  have hsecond : ∀ r : List Char, r.head? = some ' ' →
      ElementText "\x60b\x60(Int) = \"x\"".toList ⟨"\x60b\x60", some "\"x\""⟩ r := by
    intro r hr
    refine @ElementText.mk "\x60b\x60".toList "(Int)".toList " = \"x\"".toList r (some "\"x\"")
      (.inr ⟨['b'], by decide, rfl⟩) ?_ ?_
    · exact @ValuesText.group [] "Int".toList _ _ .nil
        (passes_name (f := .expression []) (.inl (by decide)) (fun _ _ => List.not_mem_nil) [] _)
    · exact @RawValueText.value [' '] [' '] "\"x\"".toList r (.blank rfl .nil) (.blank rfl .nil)
        (by decide) (by decide) (.of_head (by decide) (by decide))
        (passes_simple ⟨"x\"".toList, rfl, by decide⟩ (by decide) [] (by simp [hr]))
  exact @CaseList.more [' '] ['a'] [] _ r _ _ (.layout rfl .nil) (hplain _ _ (by decide)) .nil
    (@CaseList.more " // first\n ".toList "\x60b\x60(Int) = \"x\"".toList
      " /* second */".toList _ r _ _ (hgap _) (hsecond _ rfl) (hcomment _)
      (@CaseList.one [' '] ['c'] r _ (.layout rfl .nil) (hplain _ _ (by decide))))

/-- The list alone in a body, and the list with another line behind it that begins with a
comma. -/
theorem readBody_caseList_annotatedList :
    (∃ ds c', readBody 100 100 ⟨0, "case".toList ++ (annotatedList ++ " \x7d".toList)⟩
        = .ok (ds, c') ∧
      outlines ds = [.cases [⟨"a", none⟩, ⟨"\x60b\x60", some "\"x\""⟩, ⟨"c", none⟩]] ∧
      c'.rest = ['}']) ∧
    ∃ d c₁, readDeclaration 100 100 ⟨0, "case".toList ++ (annotatedList ++ "\n, d \x7d".toList)⟩
        = .ok (d, c₁) ∧
      d.outline = .cases [⟨"a", none⟩, ⟨"\x60b\x60", some "\"x\""⟩, ⟨"c", none⟩] := by
  have hkeyword : ∀ r : List Char, NameEnd (annotatedList ++ r) := fun r => .cons _ (by decide)
  constructor
  · exact (@readBody_caseList [] annotatedList [' '] _ 100 100 0).1 [] .nil (hkeyword _)
      (caseList_annotatedList _) (.layout rfl .nil)
  · obtain ⟨d, c₁, -, hd, houtline, -⟩ :=
      (@readBody_caseList [] annotatedList ['\n'] _ 100 100 0).2 " d \x7d".toList (hkeyword _)
        (caseList_annotatedList _) (.layout rfl .nil) (by
          intro h
          cases h with
          | blank h _ => exact absurd h (by decide))
    exact ⟨d, c₁, hd, houtline⟩

end LocalizedKeys.Swift
