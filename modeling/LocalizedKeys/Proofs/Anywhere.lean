import LocalizedKeys.Proofs.Pieces
import LocalizedKeys.Proofs.Reach
import LocalizedKeys.Proofs.Rounds

/-!
# Reading does not depend on the place

A `Carrier` takes a text further on, never back. Here the text stays and the place is any: each
reader, run on the same text from another position, succeeds with the same outline and leaves the
same text. So what is read once, wherever it was, is spelled by its text (`ReadsLeaf.spells` and
`ReadsOpening.spells`).
-/

namespace LocalizedKeys.Swift

open Cursor

variable {c c' d : Cursor}

/-! ## Tokens -/

theorem rest_advance (hd : d.rest = c.rest) (n : Nat) : (d.advance n).rest = (c.advance n).rest := by
  rw [advance_rest, advance_rest, hd]

theorem next?_anywhere (hd : d.rest = c.rest) : d.next? = c.next? := by
  rw [Cursor.next?, Cursor.next?, hd]

theorem skipTrivia_anywhere (h : skipTrivia c = .ok c') (hd : d.rest = c.rest) :
    ∃ d', skipTrivia d = .ok d' ∧ d'.rest = c'.rest := by
  obtain ⟨w, hmoves, hw, hsolid⟩ := skipTrivia_spec h
  have := skipTrivia_text hw hsolid d.pos
  rw [← hmoves.1, ← hd] at this
  exact ⟨_, this, rfl⟩

theorem skipInlineTrivia_anywhere (h : skipInlineTrivia c = .ok c') (hd : d.rest = c.rest) :
    ∃ d', skipInlineTrivia d = .ok d' ∧ d'.rest = c'.rest := by
  obtain ⟨w, hmoves, hw, hsolid⟩ := skipInlineTrivia_spec h
  have := skipInlineTrivia_text hw hsolid d.pos
  rw [← hmoves.1, ← hd] at this
  exact ⟨_, this, rfl⟩

theorem readName?_anywhere {name : String} (h : readName? c = some (name, c'))
    (hd : d.rest = c.rest) : ∃ d', readName? d = some (name, d') ∧ d'.rest = c'.rest := by
  obtain ⟨n, hn, heq⟩ := Option.map_eq_some_iff.1 h
  obtain ⟨rfl, rfl⟩ := Prod.mk.inj heq
  exact ⟨d.advance n, by rw [readName?, hd, hn, Option.map_some], rest_advance hd n⟩

theorem readName?_none_anywhere (h : readName? c = none) (hd : d.rest = c.rest) :
    readName? d = none := by
  rw [readName?, Option.map_eq_none_iff] at h ⊢
  rw [hd, h]

theorem readQualifiedName?_anywhere {name : String} (h : readQualifiedName? c = some (name, c'))
    (hd : d.rest = c.rest) : ∃ d', readQualifiedName? d = some (name, d') ∧ d'.rest = c'.rest := by
  obtain ⟨n, hn, heq⟩ := Option.map_eq_some_iff.1 h
  obtain ⟨rfl, rfl⟩ := Prod.mk.inj heq
  exact ⟨_, by rw [readQualifiedName?, hd, hn, Option.map_some], rest_advance hd _⟩

theorem scanExpression_anywhere {stops : List Char} {text : String}
    (h : scanExpression stops c = .ok (text, c')) (hd : d.rest = c.rest) :
    ∃ d', scanExpression stops d = .ok (text, d') ∧ d'.rest = c'.rest := by
  obtain ⟨w, n, hmoves, hpasses, hends, rfl⟩ := scanExpression_spec h
  have := scanExpression_text hpasses hends d.pos
  rw [← hmoves.1, ← hd] at this
  exact ⟨_, this, rfl⟩

theorem skipGroup_anywhere (hopen : c.next? = some '(') (h : skipGroup ')' c = .ok c')
    (hd : d.rest = c.rest) : ∃ d', skipGroup ')' d = .ok d' ∧ d'.rest = c'.rest := by
  obtain ⟨w, n, hmoves, hpasses⟩ := skipGroup_spec hopen h
  have hgroup := skipGroup_text (o := '(') hpasses (by decide) d.pos
  have hrest := hd.trans hmoves.1
  simp only [List.cons_append, List.append_assoc, List.nil_append] at hrest
  rw [← hrest] at hgroup
  exact ⟨_, hgroup, rfl⟩

/-! ## Attributes -/

theorem readLabel_anywhere {label : Option String} (h : readLabel c = .ok (label, c'))
    (hd : d.rest = c.rest) : ∃ d', readLabel d = .ok (label, d') ∧ d'.rest = c'.rest := by
  rcases readLabel_spec h with ⟨hname, rfl, rfl⟩ | ⟨word, after, colon, hname, hcolon, hlabel⟩
  · exact ⟨d, by rw [readLabel, readName?_none_anywhere hname hd], hd⟩
  obtain ⟨after', hname', hafter⟩ := readName?_anywhere hname hd
  obtain ⟨colon', hcolon', hrest⟩ := skipTrivia_anywhere hcolon hafter
  have hfirst := next?_anywhere hrest
  have hsecond := next?_anywhere (rest_advance hrest 1)
  simp only [readLabel, hname', hcolon', hfirst, hsecond]
  rcases hlabel with ⟨hlabelled, rfl, hexpression⟩ | ⟨hlabelled, rfl, rfl⟩
  · obtain ⟨d', hd', hrest'⟩ := skipTrivia_anywhere hexpression (rest_advance hrest 1)
    exact ⟨d', by rw [if_pos hlabelled, hd'], hrest'⟩
  · exact ⟨d, by rw [if_neg hlabelled], hd⟩

theorem readArgument_anywhere {a : Argument} (h : readArgument c = .ok (a, c'))
    (hd : d.rest = c.rest) :
    ∃ a' d', readArgument d = .ok (a', d') ∧ a'.outline = a.outline ∧ d'.rest = c'.rest := by
  obtain ⟨c₁, hlabel, hscan, hexpression, -⟩ := readArgument_spec h
  obtain ⟨d₁, hlabel', hd₁⟩ := readLabel_anywhere hlabel hd
  obtain ⟨d', hscan', hd'⟩ := scanExpression_anywhere hscan hd₁
  exact ⟨_, d', readArgument_run hlabel' hscan' hexpression, rfl, hd'⟩

theorem readArguments_anywhere {as : List Argument} (h : readArguments c = .ok (as, c'))
    (hd : d.rest = c.rest) :
    ∃ as' d', readArguments d = .ok (as', d') ∧
      as'.map Argument.outline = as.map Argument.outline ∧ d'.rest = c'.rest := by
  fun_induction readArguments c generalizing as c' d with
  | case2 c a c₁ ha hclose =>
    obtain ⟨rfl, rfl⟩ := Prod.mk.inj (Except.ok.inj h)
    obtain ⟨a', d₁, ha', houtline, hd₁⟩ := readArgument_anywhere ha hd
    refine ⟨[a'], _, readArguments_last ha' ((next?_anywhere hd₁).trans hclose), ?_,
      rest_advance hd₁ 1⟩
    simp only [List.map_cons, houtline, List.map_nil]
  | case5 c a c₁ ha hclose hcomma c₂ htrivia others c₃ hrest ih =>
    obtain ⟨rfl, rfl⟩ := Prod.mk.inj (Except.ok.inj h)
    obtain ⟨a', d₁, ha', houtline, hd₁⟩ := readArgument_anywhere ha hd
    obtain ⟨d₂, htrivia', hd₂⟩ := skipTrivia_anywhere htrivia (rest_advance hd₁ 1)
    obtain ⟨others', d', hothers', houtlines, hd'⟩ := ih hrest hd₂
    refine ⟨a' :: others', d', readArguments_more ha' ((next?_anywhere hd₁).trans hcomma) htrivia'
      hothers', ?_, hd'⟩
    simp only [List.map_cons, houtline, houtlines]
  | case1 | case3 | case4 | case6 => simp at h

theorem readArgumentList_anywhere {as : List Argument} (h : readArgumentList c = .ok (as, c'))
    (hd : d.rest = c.rest) :
    ∃ as' d', readArgumentList d = .ok (as', d') ∧
      as'.map Argument.outline = as.map Argument.outline ∧ d'.rest = c'.rest := by
  unfold readArgumentList at h ⊢
  cases htrivia : skipTrivia (c.advance 1) with
  | error e => simp [htrivia] at h
  | ok c₁ =>
    obtain ⟨d₁, htrivia', hd₁⟩ := skipTrivia_anywhere htrivia (rest_advance hd 1)
    rw [htrivia] at h
    rw [htrivia']
    dsimp only at h ⊢
    rw [next?_anywhere hd₁]
    split at h
    · rename_i hclose
      obtain ⟨rfl, rfl⟩ := Prod.mk.inj (Except.ok.inj h)
      exact ⟨[], _, by rw [if_pos hclose], rfl, rest_advance hd₁ 1⟩
    · rename_i hclose
      rw [if_neg hclose]
      exact readArguments_anywhere h hd₁

theorem readAttribute_anywhere {a : Attribute} (h : readAttribute c = .ok (a, c'))
    (hd : d.rest = c.rest) :
    ∃ a' d', readAttribute d = .ok (a', d') ∧ a'.outline = a.outline ∧ d'.rest = c'.rest := by
  unfold readAttribute at h ⊢
  cases hname : readQualifiedName? (c.advance 1) with
  | none => simp [hname] at h
  | some r =>
    obtain ⟨d₁, hname', hd₁⟩ := readQualifiedName?_anywhere hname (rest_advance hd 1)
    rw [hname] at h
    rw [hname']
    dsimp only at h ⊢
    rw [next?_anywhere hd₁]
    split at h
    · rename_i hopen
      cases hlist : readArgumentList r.2 with
      | error e => simp [hlist] at h
      | ok s =>
        obtain ⟨as', d₂, hlist', houtlines, hd₂⟩ := readArgumentList_anywhere hlist hd₁
        rw [hlist] at h
        obtain ⟨rfl, rfl⟩ := Prod.mk.inj (Except.ok.inj h)
        exact ⟨_, _, by rw [if_pos hopen, hlist'], by simp [Attribute.outline, houtlines], hd₂⟩
    · rename_i hopen
      obtain ⟨rfl, rfl⟩ := Prod.mk.inj (Except.ok.inj h)
      exact ⟨⟨r.1, none, ⟨d.pos, d₁.pos⟩⟩, d₁, by rw [if_neg hopen], rfl, hd₁⟩

theorem readAttributes_anywhere {as : List Attribute} (h : readAttributes c = .ok (as, c'))
    (hd : d.rest = c.rest) :
    ∃ as' d', readAttributes d = .ok (as', d') ∧
      as'.map Attribute.outline = as.map Attribute.outline ∧ d'.rest = c'.rest := by
  fun_induction readAttributes c generalizing as c' d with
  | case4 c hat a c₁ ha c₂ htrivia others c₃ hrest ih =>
    obtain ⟨rfl, rfl⟩ := Prod.mk.inj (Except.ok.inj h)
    obtain ⟨a', d₁, ha', houtline, hd₁⟩ := readAttribute_anywhere ha hd
    obtain ⟨d₂, htrivia', hd₂⟩ := skipTrivia_anywhere htrivia hd₁
    obtain ⟨others', d', hothers', houtlines, hd'⟩ := ih hrest hd₂
    refine ⟨a' :: others', d', readAttributes_cons ((next?_anywhere hd).trans hat) ha' htrivia'
      hothers', ?_, hd'⟩
    simp only [List.map_cons, houtline, houtlines]
  | case5 c hat =>
    obtain ⟨rfl, rfl⟩ := Prod.mk.inj (Except.ok.inj h)
    exact ⟨[], d, readAttributes_nil (by rwa [next?_anywhere hd]), rfl, hd⟩
  | case1 | case2 | case3 => simp at h

/-! ## Modifiers and the opening of a type -/

theorem isModifier_anywhere {word : String} {b : Bool} (h : isModifier word c = .ok b)
    (hd : d.rest = c.rest) : isModifier word d = .ok b := by
  by_cases hclass : word = "class"
  · cases htrivia : skipTrivia c with
    | error e => simp [isModifier, hclass, htrivia] at h
    | ok c₁ =>
      obtain ⟨d₁, htrivia', hd₁⟩ := skipTrivia_anywhere htrivia hd
      simp only [isModifier, hclass, if_true, htrivia, htrivia'] at h ⊢
      cases hname : readName? c₁ with
      | none => simpa [hname, readName?_none_anywhere hname hd₁] using h
      | some r =>
        obtain ⟨_, hname', -⟩ := readName?_anywhere hname hd₁
        simpa [hname, hname'] using h
  · rw [isModifier, if_neg hclass] at h ⊢
    exact h

theorem skipModifierArgument_anywhere (h : skipModifierArgument c = .ok c')
    (hd : d.rest = c.rest) : ∃ d', skipModifierArgument d = .ok d' ∧ d'.rest = c'.rest := by
  unfold skipModifierArgument at h ⊢
  rw [next?_anywhere hd]
  split at h
  · rename_i hopen
    rw [if_pos hopen]
    cases hgroup : skipGroup ')' c with
    | error e => simp [hgroup] at h
    | ok c₁ =>
      obtain ⟨d₁, hgroup', hd₁⟩ := skipGroup_anywhere hopen hgroup hd
      rw [hgroup] at h
      rw [hgroup']
      exact skipTrivia_anywhere h hd₁
  · rename_i hopen
    rw [if_neg hopen]
    exact skipTrivia_anywhere h hd

theorem readModifiers_anywhere {ms : List String} (h : readModifiers c = .ok (ms, c'))
    (hd : d.rest = c.rest) : ∃ d', readModifiers d = .ok (ms, d') ∧ d'.rest = c'.rest := by
  fun_induction readModifiers c generalizing ms c' d with
  | case1 c hname =>
    obtain ⟨rfl, rfl⟩ := Prod.mk.inj (Except.ok.inj h)
    exact ⟨d, readModifiers_noName (readName?_none_anywhere hname hd), hd⟩
  | case3 c word c₁ hname hword =>
    obtain ⟨rfl, rfl⟩ := Prod.mk.inj (Except.ok.inj h)
    obtain ⟨d₁, hname', hd₁⟩ := readName?_anywhere hname hd
    exact ⟨d, readModifiers_nil hname' (isModifier_anywhere hword hd₁), hd⟩
  | case6 c word c₁ hname hword c₂ hargument others c₃ hrest ih =>
    obtain ⟨rfl, rfl⟩ := Prod.mk.inj (Except.ok.inj h)
    obtain ⟨d₁, hname', hd₁⟩ := readName?_anywhere hname hd
    obtain ⟨d₂, hargument', hd₂⟩ := skipModifierArgument_anywhere hargument hd₁
    obtain ⟨d', hothers', hd'⟩ := ih hrest hd₂
    exact ⟨d', readModifiers_cons hname' (isModifier_anywhere hword hd₁) hargument' hothers', hd'⟩
  | case2 | case4 | case5 => simp at h

/-- The same word introduces the same, and leaves the same. -/
theorem lead_anywhere (hd : d.rest = c.rest) :
    match lead c with
    | .type kind after => ∃ after', lead d = .type kind after' ∧ after'.rest = after.rest
    | .cases after => ∃ after', lead d = .cases after' ∧ after'.rest = after.rest
    | .other => lead d = .other := by
  unfold lead
  cases hname : readName? c with
  | none => simp [readName?_none_anywhere hname hd]
  | some r =>
    obtain ⟨after', hname', hafter⟩ := readName?_anywhere hname hd
    rw [hname']
    dsimp only
    cases TypeKind.ofKeyword? r.1 with
    | some kind => exact ⟨after', rfl, hafter⟩
    | none =>
      dsimp only
      by_cases hword : r.1 = "case"
      · simp only [if_pos hword]
        exact ⟨after', rfl, hafter⟩
      · simp only [if_neg hword]

theorem skipGenerics_anywhere (h : skipGenerics c = .ok c') (hd : d.rest = c.rest) :
    ∃ d', skipGenerics d = .ok d' ∧ d'.rest = c'.rest := by
  unfold skipGenerics at h ⊢
  rw [next?_anywhere hd, hd]
  split at h
  · rename_i hopen
    rw [if_pos hopen]
    split at h
    · rename_i n hn
      obtain rfl := Except.ok.inj h
      exact ⟨_, rfl, rest_advance hd n⟩
    · simp at h
  · rename_i hopen
    obtain rfl := Except.ok.inj h
    exact ⟨d, by rw [if_neg hopen], hd⟩

theorem readInheritance_anywhere {is : List String} (h : readInheritance c = .ok (is, c'))
    (hd : d.rest = c.rest) : ∃ d', readInheritance d = .ok (is, d') ∧ d'.rest = c'.rest := by
  have hstarts : d.startsWith "where".toList = c.startsWith "where".toList := by
    rw [Cursor.startsWith, Cursor.startsWith, hd]
  unfold readInheritance at h ⊢
  rw [next?_anywhere hd, hstarts]
  split at h
  · rename_i hcolon
    rw [if_pos hcolon]
    cases hscan : scanExpression ['\x7b'] (c.advance 1) with
    | error e => simp [hscan] at h
    | ok r =>
      obtain ⟨d', hscan', hd'⟩ := scanExpression_anywhere hscan (rest_advance hd 1)
      rw [hscan] at h
      obtain ⟨rfl, rfl⟩ := Prod.mk.inj (Except.ok.inj h)
      exact ⟨d', by rw [hscan'], hd'⟩
  · rename_i hcolon
    rw [if_neg hcolon]
    split at h
    · rename_i hwhere
      rw [if_pos hwhere]
      cases hscan : scanExpression ['\x7b'] c with
      | error e => simp [hscan] at h
      | ok r =>
        obtain ⟨d', hscan', hd'⟩ := scanExpression_anywhere hscan hd
        rw [hscan] at h
        obtain ⟨rfl, rfl⟩ := Prod.mk.inj (Except.ok.inj h)
        exact ⟨d', by rw [hscan'], hd'⟩
    · rename_i hwhere
      obtain ⟨rfl, rfl⟩ := Prod.mk.inj (Except.ok.inj h)
      exact ⟨d, by rw [if_neg hwhere], hd⟩

theorem readTypeOpening_anywhere {name : String} {inheritance : List String} {brace : Cursor}
    (h : readTypeOpening c = .ok ((name, inheritance), brace)) (hd : d.rest = c.rest) :
    ∃ brace', readTypeOpening d = .ok ((name, inheritance), brace') ∧
      brace'.rest = brace.rest := by
  obtain ⟨c₁, c₂, c₃, c₄, htrivia, hname, hgenerics, htrivia', hinheritance, hbrace⟩ :=
    readTypeOpening_spec h
  obtain ⟨d₁, hd₁, hrest₁⟩ := skipTrivia_anywhere htrivia hd
  obtain ⟨d₂, hd₂, hrest₂⟩ := readQualifiedName?_anywhere hname hrest₁
  obtain ⟨d₃, hd₃, hrest₃⟩ := skipGenerics_anywhere hgenerics hrest₂
  obtain ⟨d₄, hd₄, hrest₄⟩ := skipTrivia_anywhere htrivia' hrest₃
  obtain ⟨brace', hinheritance', hrest⟩ := readInheritance_anywhere hinheritance hrest₄
  refine ⟨brace', ?_, hrest⟩
  simp only [readTypeOpening, bind, Except.bind, hd₁, hd₂, hd₃, hd₄, hinheritance',
    next?_anywhere hrest, hbrace, if_true, pure, Except.pure]

theorem ReadsOpening.spells {kind : TypeKind} {name : String} {attributes : List Attribute}
    {modifiers inheritance : List String} {brace : Cursor} {rest : List Char}
    (h : ReadsOpening c kind name attributes modifiers inheritance brace)
    (hbrace : brace.rest = '\x7b' :: rest) :
    SpellsOpening c.rest kind name (attributes.map Attribute.outline) modifiers inheritance
      rest := by
  intro p
  obtain ⟨c₁, c₂, after, hattributes, hmodifiers, hlead, hafter⟩ := h
  obtain ⟨as, d₁, hattributes', houtlines, hrest₁⟩ :=
    readAttributes_anywhere (d := ⟨p, c.rest⟩) hattributes rfl
  obtain ⟨d₂, hmodifiers', hrest₂⟩ := readModifiers_anywhere hmodifiers hrest₁
  have hsame := lead_anywhere hrest₂
  rw [hlead] at hsame
  obtain ⟨after', hlead', hrest₃⟩ := hsame
  obtain ⟨brace', hafter', hrest⟩ := readTypeOpening_anywhere hafter hrest₃
  exact ⟨as, brace', ⟨d₁, d₂, after', hattributes', hmodifiers', hlead', hafter'⟩, houtlines,
    hrest.trans hbrace⟩

/-! ## Declarations that hold no others -/

theorem skipAssociatedValues_anywhere (h : skipAssociatedValues c = .ok c')
    (hd : d.rest = c.rest) : ∃ d', skipAssociatedValues d = .ok d' ∧ d'.rest = c'.rest := by
  unfold skipAssociatedValues at h ⊢
  rw [next?_anywhere hd]
  split at h
  · rename_i hopen
    rw [if_pos hopen]
    cases hgroup : skipGroup ')' c with
    | error e => simp [hgroup] at h
    | ok c₁ =>
      obtain ⟨d₁, hgroup', hd₁⟩ := skipGroup_anywhere hopen hgroup hd
      rw [hgroup] at h
      rw [hgroup']
      exact skipInlineTrivia_anywhere h hd₁
  · rename_i hopen
    obtain rfl := Except.ok.inj h
    exact ⟨d, by rw [if_neg hopen], hd⟩

theorem readRawValue_anywhere {rawValue : Option String}
    (h : readRawValue c = .ok (rawValue, c')) (hd : d.rest = c.rest) :
    ∃ d', readRawValue d = .ok (rawValue, d') ∧ d'.rest = c'.rest := by
  rcases readRawValue_spec h with ⟨hsign, rfl, rfl⟩ |
    ⟨text, c₁, c₂, hsign, hbefore, hscan, htext, hafter, rfl⟩
  · exact ⟨d, readRawValue_none (by rwa [next?_anywhere hd]), hd⟩
  · obtain ⟨d₁, hbefore', hd₁⟩ := skipInlineTrivia_anywhere hbefore (rest_advance hd 1)
    obtain ⟨d₂, hscan', hd₂⟩ := scanExpression_anywhere hscan hd₁
    obtain ⟨d', hafter', hd'⟩ := skipInlineTrivia_anywhere hafter hd₂
    exact ⟨d', readRawValue_some ((next?_anywhere hd).trans hsign) hbefore' hscan' htext hafter',
      hd'⟩

theorem readCaseElement_anywhere {element : CaseElement}
    (h : readCaseElement c = .ok (element, c')) (hd : d.rest = c.rest) :
    ∃ e d', readCaseElement d = .ok (e, d') ∧ e.outline = element.outline ∧
      d'.rest = c'.rest := by
  obtain ⟨start, name, c₁, c₂, c₃, rawValue, htrivia, hname, hinline, hvalues, hraw, rfl⟩ :=
    readCaseElement_spec h
  obtain ⟨d₀, htrivia', hd₀⟩ := skipTrivia_anywhere htrivia hd
  obtain ⟨d₁, hname', hd₁⟩ := readName?_anywhere hname hd₀
  obtain ⟨d₂, hinline', hd₂⟩ := skipInlineTrivia_anywhere hinline hd₁
  obtain ⟨d₃, hvalues', hd₃⟩ := skipAssociatedValues_anywhere hvalues hd₂
  obtain ⟨d', hraw', hd'⟩ := readRawValue_anywhere hraw hd₃
  exact ⟨_, d', readCaseElement_run htrivia' hname' hinline' hvalues' hraw', rfl, hd'⟩

theorem readCaseElements_anywhere {elements : List CaseElement}
    (h : readCaseElements c = .ok (elements, c')) (hd : d.rest = c.rest) :
    ∃ es d', readCaseElements d = .ok (es, d') ∧
      es.map CaseElement.outline = elements.map CaseElement.outline ∧ d'.rest = c'.rest := by
  fun_induction readCaseElements c generalizing elements c' d with
  | case3 c e c₁ he hcomma others c₂ hrest ih =>
    obtain ⟨rfl, rfl⟩ := Prod.mk.inj (Except.ok.inj h)
    obtain ⟨e', d₁, he', houtline, hd₁⟩ := readCaseElement_anywhere he hd
    obtain ⟨others', d', hothers', houtlines, hd'⟩ := ih hrest (rest_advance hd₁ 1)
    refine ⟨e' :: others', d', readCaseElements_more he' ((next?_anywhere hd₁).trans hcomma)
      hothers', ?_, hd'⟩
    simp only [List.map_cons, houtline, houtlines]
  | case4 c e c₁ he hcomma =>
    obtain ⟨rfl, rfl⟩ := Prod.mk.inj (Except.ok.inj h)
    obtain ⟨e', d₁, he', houtline, hd₁⟩ := readCaseElement_anywhere he hd
    refine ⟨[e'], d₁, readCaseElements_last he' (by rwa [next?_anywhere hd₁]), ?_, hd₁⟩
    simp only [List.map_cons, houtline, List.map_nil]
  | case1 | case2 => simp at h

theorem ReadsLeaf.spells {o : Declaration} (h : ReadsLeaf c o c') :
    SpellsLeaf c.rest o.outline c'.rest := by
  intro p
  cases h with
  | @other _ c₂ _ attributes modifiers _ hattributes hmodifiers hlead hother =>
    obtain ⟨as, d₁, hattributes', houtlines, hd₁⟩ :=
      readAttributes_anywhere (d := ⟨p, c.rest⟩) hattributes rfl
    obtain ⟨d₂, hmodifiers', hd₂⟩ := readModifiers_anywhere hmodifiers hd₁
    have hlead' := lead_anywhere hd₂
    rw [hlead] at hlead'
    obtain ⟨w₁, hmoves₁⟩ :=
      (reaches_readAttributes hattributes').1.trans (reaches_readModifiers hmodifiers')
    obtain ⟨w₂, hmoves₂⟩ := (reaches_readAttributes hattributes).1.trans
      ((reaches_readModifiers hmodifiers).trans (reaches_readOther hother))
    obtain ⟨text, hscan, hpos, rfl⟩ := readOther_spec hother
    obtain ⟨d', hscan', hd'⟩ := scanExpression_anywhere hscan hd₂
    obtain ⟨w₃, hmoves₃⟩ := reaches_scanExpression hscan'
    have hmoves := hmoves₁.trans hmoves₃
    -- the same characters lie between the two places
    obtain rfl : w₁ ++ w₃ = w₂ := by
      refine List.append_cancel_right ((hmoves.1).symm.trans ?_)
      rw [hd']
      exact hmoves₂.1
    have hslice := hmoves.slice
    rw [← hmoves₂.slice] at hslice
    have hne : d'.pos ≠ p := by
      have h₁ := hmoves.2
      have h₂ := hmoves₂.2
      dsimp only at h₁
      omega
    exact ⟨_, d', .other hattributes' hmodifiers' hlead' (readOther_run hscan' hne),
      by simp only [Declaration.outline, hslice, houtlines], hd'⟩
  | cases hattributes hmodifiers hlead hcases =>
    obtain ⟨as, d₁, hattributes', -, hd₁⟩ :=
      readAttributes_anywhere (d := ⟨p, c.rest⟩) hattributes rfl
    obtain ⟨d₂, hmodifiers', hd₂⟩ := readModifiers_anywhere hmodifiers hd₁
    have hsame := lead_anywhere hd₂
    rw [hlead] at hsame
    obtain ⟨after', hlead', hafter⟩ := hsame
    obtain ⟨elements, helements, rfl⟩ := readCases_spec hcases
    obtain ⟨es, d', helements', houtlines, hd'⟩ := readCaseElements_anywhere helements hafter
    exact ⟨.cases es ⟨p, d'.pos⟩, d',
      .cases hattributes' hmodifiers' hlead' (by rw [readCases, helements']),
      by simp only [Declaration.outline, houtlines], hd'⟩

end LocalizedKeys.Swift
