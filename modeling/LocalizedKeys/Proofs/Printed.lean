import LocalizedKeys.Proofs.Pieces
import LocalizedKeys.Proofs.Printing
import LocalizedKeys.Proofs.Rounds
import Mathlib.Data.List.Forall2

/-!
# Reading back what was printed

Every reader takes the text that was printed for it as a whole and gives back what was printed,
whatever comes after it. From the pieces up: expressions, arguments, attributes, modifiers, the
opening of a type, case elements. A forest is then read back by induction on it
(`spells_printAll`), so printing and reading a source gives its outlines again
(`readSource_printAll`).
-/

namespace LocalizedKeys.Swift

open Text

/-! ## Expressions -/

theorem Solid.of_head {ch : Char} {r : List Char} (hslash : ch ≠ '/')
    (hlayout : isLayout ch = false) : Solid (ch :: r) := by
  rw [Solid]
  · exact hlayout
  · exact fun _ h _ => hslash h
  · exact fun _ h _ => hslash h

theorem InlineSolid.of_head {ch : Char} {r : List Char} (hslash : ch ≠ '/')
    (hblank : isBlank ch = false) : InlineSolid (ch :: r) := by
  rw [InlineSolid]
  · exact hblank
  · exact fun _ h _ => hslash h
  · exact fun _ h _ => hslash h

/-- A name or a literal comes next. -/
def BeginsToken (cs : List Char) : Prop :=
  ∃ ch rest, cs = ch :: rest ∧ (isNameChar ch = true ∨ ch = '"')

theorem BeginsToken.append {cs : List Char} (h : BeginsToken cs) (r : List Char) :
    BeginsToken (cs ++ r) := by
  obtain ⟨ch, rest, rfl, hch⟩ := h
  exact ⟨ch, rest ++ r, rfl, hch⟩

theorem BeginsToken.head_ne {cs : List Char} (h : BeginsToken cs) {d : Char}
    (hname : isNameChar d = false) (hquote : d ≠ '"') : cs.head? ≠ some d := by
  obtain ⟨ch, rest, rfl, hch⟩ := h
  intro hd
  obtain rfl := Option.some.inj hd
  rcases hch with hch | rfl
  · simp [hname] at hch
  · exact hquote rfl

theorem BeginsToken.solid {cs : List Char} (h : BeginsToken cs) : Solid cs := by
  obtain ⟨ch, rest, rfl, hch⟩ := h
  rcases hch with hch | rfl
  · refine .of_head (ne_of_isNameChar hch (by decide)) ?_
    have hspace := (isPlainChar_of_isNameChar hch).2
    cases hlayout : isLayout ch with
    | false => rfl
    | true => simp [isSpace_of_isLayout hlayout] at hspace
  · exact .of_head (by decide) (by decide)

theorem IsName.begins {n : List Char} (h : IsName n) : BeginsToken n := by
  cases n with
  | nil => exact absurd rfl h.ne_nil
  | cons c rest => exact ⟨c, rest, rfl, .inl (h.all c List.mem_cons_self)⟩

theorem trim_eq {cs : List Char} (hhead : ∀ c ∈ cs.head?, isSpace c = false)
    (hlast : ∀ c ∈ cs.getLast?, isSpace c = false) : trim cs = cs := by
  have hdrop : ∀ xs : List Char, (∀ c ∈ xs.head?, isSpace c = false) →
      xs.dropWhile isSpace = xs := by
    intro xs hxs
    cases xs with
    | nil => rfl
    | cons x xs => rw [List.dropWhile_cons_of_neg (by simp [hxs x rfl])]
  rw [trim, dropWhileEnd, hdrop cs hhead, hdrop, List.reverse_reverse]
  rwa [List.head?_reverse]

theorem trim_of_all {cs : List Char} (h : ∀ c ∈ cs, isSpace c = false) : trim cs = cs :=
  trim_eq (fun c hc => h c (List.mem_of_mem_head? hc)) (fun c hc => h c (List.mem_of_getLast? hc))

theorem IsName.trim {n : List Char} (h : IsName n) : trim n = n :=
  trim_of_all fun c hc => (isPlainChar_of_isNameChar (h.all c hc)).2

theorem closesSimply_getLast? {body : List Char} (h : closesSimply body = true) :
    body.getLast? = some '"' := by
  fun_induction closesSimply body with
  | case1 c rest ih =>
    simp only [Bool.and_eq_true] at h
    have := ih h.2
    cases rest with
    | nil => simp at this
    | cons d ds => simpa [List.getLast?_cons_cons] using this
  | case2 => rfl
  | case3 c rest _ _ ih =>
    simp only [Bool.and_eq_true] at h
    have := ih h.2
    cases rest with
    | nil => simp at this
    | cons d ds => simpa [List.getLast?_cons_cons] using this
  | case4 => simp at h

theorem IsSimple.trim {cs : List Char} (h : IsSimple cs) : trim cs = cs := by
  obtain ⟨body, rfl, hbody⟩ := h
  have hlast := closesSimply_getLast? hbody
  refine trim_eq (fun c hc => ?_) (fun c hc => ?_)
  · obtain rfl := Option.some.inj hc
    decide
  · cases body with
    | nil => simp at hlast
    | cons d ds =>
      rw [List.getLast?_cons_cons, hlast] at hc
      obtain rfl := Option.some.inj hc
      decide

/-- Stop characters that neither a name nor the quote of a literal can be. -/
def FitStops (stops : List Char) : Prop := '"' ∉ stops ∧ ∀ c, isNameChar c = true → c ∉ stops

theorem fitStops_of_all {stops : List Char}
    (h : ∀ c ∈ stops, c ≠ '"' ∧ isNameChar c = false) : FitStops stops := by
  refine ⟨fun hmem => (h _ hmem).1 rfl, fun c hc hmem => ?_⟩
  simp [(h c hmem).2] at hc

theorem EndsExpression.ne_quote {stops r : List Char} (hs : FitStops stops)
    (h : EndsExpression stops r) : r.head? ≠ some '"' := by
  intro hr
  have := h '"' hr
  simp [isClosingBracket, hs.1] at this

/-- A printable expression is read as a whole. -/
theorem scanExpression_printed {stops r : List Char} {expression : String}
    (h : PrintableExpression expression) (hs : FitStops stops) (hr : EndsExpression stops r)
    (p : Nat) :
    scanExpression stops ⟨p, expression.toList ++ r⟩
      = .ok (expression, ⟨p + expression.toList.length, r⟩) := by
  have hpasses : PassesExpression stops expression.toList expression.toList.length r := by
    rcases h with h | h
    · exact passes_simple (f := .expression stops) (isSimple_iff.1 h) hs.1 [] (hr.ne_quote hs)
    · exact passes_name (f := .expression stops) h hs.2 [] r
  have htrim : trim expression.toList = expression.toList := by
    rcases h with h | h
    · exact (isSimple_iff.1 h).trim
    · exact h.trim
  rw [scanExpression_text hpasses hr, List.take_length, htrim, String.ofList_toList]

theorem PrintableExpression.ne_empty {expression : String} (h : PrintableExpression expression) :
    expression.isEmpty = false := by
  have hne : expression.toList ≠ [] := by
    rcases h with h | h
    · obtain ⟨body, heq, -⟩ := isSimple_iff.1 h
      simp [heq]
    · exact h.ne_nil
  cases hempty : expression.isEmpty with
  | false => rfl
  | true =>
    rw [String.isEmpty_iff] at hempty
    simp [hempty] at hne

theorem PrintableExpression.begins {expression : String} (h : PrintableExpression expression) :
    BeginsToken expression.toList := by
  rcases h with h | h
  · obtain ⟨body, heq, -⟩ := isSimple_iff.1 h
    exact ⟨'"', body, heq, .inr rfl⟩
  · exact h.begins

/-! ## Attributes -/

/-- The stop characters of arguments. -/
theorem fitStops_argument : FitStops [',', ')'] :=
  fitStops_of_all (by decide)

theorem endsArgument {ch : Char} (r : List Char) (h : ch = ',' ∨ ch = ')') :
    EndsExpression [',', ')'] (ch :: r) := by
  intro x hx
  obtain rfl := Option.some.inj hx
  rcases h with rfl | rfl <;> rfl

/-- A label is read before its colon, with the trivia between the colon and what it labels. -/
theorem readLabel_some {label : String} (hlabel : IsName label.toList) {w r : List Char}
    (hw : Trivia w r) (hr : Solid r) (hcolon : (w ++ r).head? ≠ some ':') (p : Nat) :
    readLabel ⟨p, label.toList ++ ':' :: (w ++ r)⟩
      = .ok (some label, ⟨p + label.toList.length + 1 + w.length, r⟩) := by
  have hsolid : Solid (':' :: (w ++ r)) := .of_head (by decide) (by decide)
  have hname := readName?_append hlabel (NameEnd.cons (c := ':') (w ++ r) (by decide)) p
  simp only [readLabel, hname, skipTrivia_solid hsolid, Cursor.advance_one_cons]
  rw [if_pos ⟨rfl, hcolon⟩, skipTrivia_text hw hr, String.ofList_toList]

/-- An expression without a label is no label, since no colon comes after it. -/
theorem readLabel_none {expression : String} (h : PrintableExpression expression) {ch : Char}
    (r : List Char) (hch : ch = ',' ∨ ch = ')') (p : Nat) :
    readLabel ⟨p, expression.toList ++ ch :: r⟩
      = .ok (none, ⟨p, expression.toList ++ ch :: r⟩) := by
  rcases h with h | h
  · obtain ⟨body, heq, -⟩ := isSimple_iff.1 h
    have hnone : readName? ⟨p, expression.toList ++ ch :: r⟩ = none := by
      refine readName?_none ?_ p
      intro x hx
      rw [heq] at hx
      obtain rfl := Option.some.inj hx
      decide
    simp only [readLabel, hnone]
  · have hend : NameEnd (ch :: r) := .cons _ (by rcases hch with rfl | rfl <;> decide)
    have hsolid : Solid (ch :: r) := by
      rcases hch with rfl | rfl
      · exact .of_head (by decide) (by decide)
      · exact .of_head (by decide) (by decide)
    simp only [readLabel, readName?_append h hend, skipTrivia_solid hsolid]
    rw [if_neg]
    rintro ⟨hcolon, -⟩
    simp only [Cursor.next?, List.head?_cons, Option.some.injEq] at hcolon
    rcases hch with rfl | rfl <;> exact absurd hcolon (by decide)

/-- The text is read as the argument where a comma or the closing parenthesis comes next. -/
structure ReadsArgument (text : List Char) (a : ArgumentOutline) : Prop where
  begins : BeginsToken text
  run : ∀ {ch : Char} (r : List Char) (p : Nat), ch = ',' ∨ ch = ')' →
    ∃ argument p', readArgument ⟨p, text ++ ch :: r⟩ = .ok (argument, ⟨p', ch :: r⟩) ∧
      argument.outline = a

theorem readsArgument_printed {a : ArgumentOutline} (h : a.Printable) :
    ReadsArgument (printArgument a) a := by
  obtain ⟨label, expression⟩ := a
  obtain ⟨hlabel, hexpression⟩ := h
  cases label with
  | none =>
    refine ⟨hexpression.begins, ?_⟩
    intro ch r p hch
    have hread := readArgument_run (readLabel_none hexpression r hch p)
      (scanExpression_printed hexpression fitStops_argument (endsArgument r hch) p)
      hexpression.ne_empty
    exact ⟨_, _, hread, rfl⟩
  | some label =>
    have hname := hlabel label rfl
    refine ⟨hname.begins.append _, ?_⟩
    intro ch r p hch
    have hsolid := (hexpression.begins.append (ch :: r)).solid
    have hread := readArgument_run
      (readLabel_some (w := [' ']) hname (.layout rfl .nil) hsolid (by simp) p)
      (scanExpression_printed hexpression fitStops_argument (endsArgument r hch) _)
      hexpression.ne_empty
    rw [printArgument, List.append_assoc]
    exact ⟨_, _, hread, rfl⟩

variable {texts : List (List Char)} {as : List ArgumentOutline}

theorem begins_join_arguments (h : List.Forall₂ ReadsArgument texts as) (hne : texts ≠ []) :
    BeginsToken (join commaSpace texts) := by
  cases h with
  | nil => exact absurd rfl hne
  | @cons text a texts as ha _ =>
    cases texts with
    | nil => exact ha.begins
    | cons t ts =>
      rw [join_cons _ _ (List.cons_ne_nil t ts), List.append_assoc]
      exact ha.begins.append _

/-- Arguments are read up to the closing parenthesis. -/
theorem readArguments_join (h : List.Forall₂ ReadsArgument texts as) (hne : texts ≠ [])
    (r : List Char) (p : Nat) :
    ∃ arguments p', readArguments ⟨p, join commaSpace texts ++ ')' :: r⟩
        = .ok (arguments, ⟨p', r⟩) ∧ arguments.map Argument.outline = as := by
  induction h generalizing p with
  | nil => exact absurd rfl hne
  | @cons text a texts as ha has ih =>
    cases texts with
    | nil =>
      cases has
      obtain ⟨argument, p₁, hread, rfl⟩ := ha.run r p (.inr rfl)
      refine ⟨[argument], p₁ + 1, ?_, rfl⟩
      rw [← Cursor.advance_one_cons]
      exact readArguments_last hread rfl
    | cons t ts =>
      have hsolid := ((begins_join_arguments has (List.cons_ne_nil t ts)).append (')' :: r)).solid
      obtain ⟨argument, p₁, hread, rfl⟩ :=
        ha.run (' ' :: (join commaSpace (t :: ts) ++ ')' :: r)) p (.inl rfl)
      obtain ⟨others, p₃, hothers, hmap⟩ := ih (List.cons_ne_nil t ts) (p₁ + 1 + 1)
      have htrivia : skipTrivia (Cursor.advance ⟨p₁, ',' :: ' ' ::
          (join commaSpace (t :: ts) ++ ')' :: r)⟩ 1) = .ok ⟨p₁ + 1 + 1, _⟩ :=
        skipTrivia_text (w := [' ']) (.layout rfl .nil) hsolid (p₁ + 1)
      refine ⟨argument :: others, p₃, ?_, by rw [List.map_cons, hmap]⟩
      rw [← readArguments_more hread rfl htrivia hothers, join_cons _ _ (List.cons_ne_nil t ts)]
      simp only [commaSpace, List.append_assoc, List.cons_append, List.nil_append]

/-- An argument list is read from one parenthesis to the other. -/
theorem readArgumentList_join (h : List.Forall₂ ReadsArgument texts as) (r : List Char) (p : Nat) :
    ∃ arguments p', readArgumentList ⟨p, '(' :: (join commaSpace texts ++ ')' :: r)⟩
        = .ok (arguments, ⟨p', r⟩) ∧ arguments.map Argument.outline = as := by
  by_cases hne : texts = []
  · subst hne
    cases h
    have hsolid : Solid (')' :: r) := .of_head (by decide) (by decide)
    refine ⟨[], p + 1 + 1, ?_, rfl⟩
    simp only [readArgumentList, join, List.nil_append, Cursor.advance_one_cons,
      skipTrivia_solid hsolid, Cursor.next?, List.head?_cons, if_true]
  · obtain ⟨arguments, p', hread, hmap⟩ := readArguments_join h hne r (p + 1)
    have hbegins := (begins_join_arguments h hne).append (')' :: r)
    refine ⟨arguments, p', ?_, hmap⟩
    simp only [readArgumentList, Cursor.advance_one_cons, skipTrivia_solid hbegins.solid]
    rw [if_neg (by exact hbegins.head_ne (d := ')') (by decide) (by decide)), hread]

theorem dottedEnd_of_head {c : Char} (r : List Char) (h : isNamePart c = false)
    (hdot : c ≠ '.') : DottedEnd (c :: r) :=
  ⟨.cons r h, by simpa using hdot⟩

/-- An attribute is read before the end of its line. -/
theorem readAttribute_printed {a : AttributeOutline} (h : a.Printable) (r : List Char) (p : Nat) :
    ∃ b p', readAttribute ⟨p, printAttribute a ++ '\n' :: r⟩ = .ok (b, ⟨p', '\n' :: r⟩) ∧
      b.outline = a := by
  obtain ⟨name, arguments⟩ := a
  obtain ⟨hname, harguments⟩ := h
  cases arguments with
  | none =>
    have hread := readQualifiedName?_append hname
      (dottedEnd_of_head (c := '\n') r (by decide) (by decide)) (p + 1)
    refine ⟨⟨name, none, ⟨p, p + 1 + name.toList.length⟩⟩, p + 1 + name.toList.length, ?_, rfl⟩
    simp only [readAttribute, printAttribute, List.append_nil, List.cons_append,
      Cursor.advance_one_cons]
    dsimp only at hread
    simp only [hread, String.ofList_toList, Cursor.next?, List.head?_cons]
    rfl
  | some as =>
    have hread := readQualifiedName?_append hname (dottedEnd_of_head (c := '(')
      (join commaSpace (as.map printArgument) ++ ')' :: '\n' :: r) (by decide) (by decide)) (p + 1)
    have hprinted : List.Forall₂ ReadsArgument (as.map printArgument) as := by
      rw [List.forall₂_map_left_iff, List.forall₂_same]
      exact fun a ha => readsArgument_printed (harguments _ rfl a ha)
    obtain ⟨arguments, p', hlist, hmap⟩ :=
      readArgumentList_join hprinted ('\n' :: r) (p + 1 + name.toList.length)
    refine ⟨⟨name, some arguments, ⟨p, p'⟩⟩, p', ?_, ?_⟩
    · simp only [readAttribute, printAttribute, List.cons_append, List.append_assoc,
        Cursor.advance_one_cons, List.nil_append]
      dsimp only at hread
      simp only [hread, String.ofList_toList, Cursor.next?, List.head?_cons, if_true, hlist]
    · simp only [Attribute.outline, Option.map_some, hmap]

theorem trivia_of_layout {w r : List Char} (h : ∀ ch ∈ w, isLayout ch = true) : Trivia w r := by
  induction w with
  | nil => exact .nil
  | cons ch w ih =>
    exact .layout (h ch List.mem_cons_self) (ih fun x hx => h x (List.mem_cons_of_mem _ hx))

theorem layout_indentation (depth : Nat) : ∀ ch ∈ indentation depth, isLayout ch = true := by
  intro ch hch
  rw [List.eq_of_mem_replicate hch]
  rfl

/-- The lines of attributes in front of `r` are read together; `t` is what is left of them when
the indentation of the first has been passed. -/
theorem readAttributes_printed (depth : Nat) {as : List AttributeOutline}
    (h : ∀ a ∈ as, a.Printable) {r : List Char} (hr : BeginsToken r) :
    ∃ t, printAttributes depth as ++ (indentation depth ++ r) = indentation depth ++ t ∧
      Solid t ∧ (t.head? = some '@' ∨ BeginsToken t) ∧ r.length ≤ t.length ∧
      ∀ p, ∃ bs p', readAttributes ⟨p, t⟩ = .ok (bs, ⟨p', r⟩) ∧
        bs.map Attribute.outline = as := by
  induction as with
  | nil =>
    refine ⟨r, rfl, hr.solid, .inr hr, Nat.le_refl _, fun p => ⟨[], p, ?_, rfl⟩⟩
    exact readAttributes_nil (hr.head_ne (by decide) (by decide))
  | cons a as ih =>
    obtain ⟨t, htext, hsolid, -, hlen, hread⟩ := ih fun x hx => h x (List.mem_cons_of_mem _ hx)
    refine ⟨printAttribute a ++ '\n' :: (indentation depth ++ t), ?_, ?_, .inl rfl, ?_, ?_⟩
    · rw [printAttributes, List.flatMap_cons, ← printAttributes, List.append_assoc, htext]
      simp only [List.append_assoc, List.cons_append, List.nil_append]
    · exact .of_head (by decide) (by decide)
    · simp only [List.length_append, List.length_cons]
      omega
    · intro p
      obtain ⟨b, p₁, hb, rfl⟩ := readAttribute_printed (h a List.mem_cons_self)
        (indentation depth ++ t) p
      have hlayout : Trivia ('\n' :: indentation depth) t :=
        .layout rfl (trivia_of_layout (layout_indentation depth))
      have htrivia := skipTrivia_text hlayout hsolid p₁
      obtain ⟨bs, p', hbs, rfl⟩ := hread (p₁ + ('\n' :: indentation depth).length)
      exact ⟨b :: bs, p', readAttributes_cons rfl hb htrivia hbs, rfl⟩

/-! ## Modifiers -/

theorem plainName_modifiers : ∀ m ∈ modifierWords, PlainName m.toList := by decide

theorem plainName_keyword (kind : TypeKind) : PlainName kind.keyword.toList := by
  cases kind <;> decide

theorem isModifier_of_mem {m : String} (h : m ∈ modifierWords) (c : Cursor) :
    isModifier m c = .ok true := by
  have hclass : m ≠ "class" := by
    rintro rfl
    exact absurd h (by decide)
  rw [isModifier, if_neg hclass]
  simp [h]

/-- Modifiers are read up to a word that is none. -/
theorem readModifiers_printed {ms : List String} (h : ∀ m ∈ ms, m ∈ modifierWords)
    {r : List Char} (hr : BeginsToken r)
    (hstop : ∀ p, readModifiers ⟨p, r⟩ = .ok ([], ⟨p, r⟩)) (p : Nat) :
    ∃ p', readModifiers ⟨p, printModifiers ms ++ r⟩ = .ok (ms, ⟨p', r⟩) := by
  induction ms generalizing p with
  | nil => exact ⟨p, hstop p⟩
  | cons m ms ih =>
    have hm := h m List.mem_cons_self
    have hms : ∀ x ∈ ms, x ∈ modifierWords := fun x hx => h x (List.mem_cons_of_mem _ hx)
    have hname : readName? ⟨p, m.toList ++ ' ' :: (printModifiers ms ++ r)⟩
        = some (m, ⟨p + m.toList.length, ' ' :: (printModifiers ms ++ r)⟩) := by
      rw [readName?_append (.inl (plainName_modifiers m hm)) (.cons _ (by decide)),
        String.ofList_toList]
    have hbegins : BeginsToken (printModifiers ms ++ r) := by
      cases ms with
      | nil => exact hr
      | cons m' ms =>
        have hm' := plainName_modifiers m' (hms m' List.mem_cons_self)
        simp only [printModifiers, List.flatMap_cons, List.append_assoc]
        exact (IsName.begins (.inl hm')).append _
    have hargument : skipModifierArgument
        ⟨p + m.toList.length, ' ' :: (printModifiers ms ++ r)⟩
        = .ok ⟨p + m.toList.length + 1, printModifiers ms ++ r⟩ := by
      rw [skipModifierArgument, if_neg (by simp [Cursor.next?])]
      exact skipTrivia_text (w := [' ']) (.layout rfl .nil) hbegins.solid _
    obtain ⟨p', hread⟩ := ih hms (p + m.toList.length + 1)
    refine ⟨p', ?_⟩
    have htext : printModifiers (m :: ms) ++ r = m.toList ++ ' ' :: (printModifiers ms ++ r) := by
      simp only [printModifiers, List.flatMap_cons, List.append_assoc, List.cons_append,
        List.nil_append]
    rw [htext]
    exact readModifiers_cons hname (isModifier_of_mem hm _) hargument hread

/-- The keyword of a type is no modifier in front of the name of the type. -/
theorem readModifiers_keyword {kind : TypeKind} {name : String} (hname : IsName name.toList)
    (hclass : kind = .classType → name ∉ classMemberWords) {r : List Char} (hr : NameEnd r)
    (p : Nat) :
    readModifiers ⟨p, kind.keyword.toList ++ ' ' :: (name.toList ++ r)⟩
      = .ok ([], ⟨p, kind.keyword.toList ++ ' ' :: (name.toList ++ r)⟩) := by
  have hkeyword := readName?_append (.inl (plainName_keyword kind))
    (NameEnd.cons (c := ' ') (name.toList ++ r) (by decide)) p
  rw [String.ofList_toList] at hkeyword
  refine readModifiers_nil hkeyword ?_
  by_cases hkind : kind = .classType
  · subst hkind
    have htrivia : skipTrivia ⟨p + TypeKind.classType.keyword.toList.length,
        ' ' :: (name.toList ++ r)⟩
        = .ok ⟨p + TypeKind.classType.keyword.toList.length + 1, name.toList ++ r⟩ :=
      skipTrivia_text (w := [' ']) (.layout rfl .nil) (hname.begins.append r).solid _
    have hfollowing := readName?_append hname hr
      (p + TypeKind.classType.keyword.toList.length + 1)
    rw [String.ofList_toList] at hfollowing
    have hnot : classMemberWords.contains name = false := by
      simpa using hclass rfl
    rw [isModifier, if_pos (show TypeKind.classType.keyword = "class" from rfl), htrivia]
    simp only [hfollowing, hnot]
  · have hword : kind.keyword ≠ "class" ∧ modifierWords.contains kind.keyword = false := by
      cases kind <;> first | exact absurd rfl hkind | decide
    rw [isModifier, if_neg hword.1, hword.2]

/-! ## Inheritance -/

/-- A word cannot begin in a text that lacks one of its characters, unless it goes on in what
follows. -/
theorem isPrefixOf_append_false {word n r : List Char} {x : Char} (hx : x ∈ word) (hn : x ∉ n)
    (hr : ∀ y ∈ r.head?, y ∉ word) : word.isPrefixOf (n ++ r) = false := by
  cases h : word.isPrefixOf (n ++ r) with
  | false => rfl
  | true =>
    exfalso
    rw [List.isPrefixOf_iff_prefix] at h
    rcases List.prefix_or_prefix_of_prefix h (List.prefix_append n r) with hpre | ⟨tl, rfl⟩
    · exact hn (hpre.subset hx)
    · rw [List.prefix_append_right_inj] at h
      cases tl with
      | nil => exact hn (by simpa using hx)
      | cons y tl =>
        obtain ⟨r', rfl⟩ := h
        exact hr y rfl (by simp)

theorem textBefore_append {word n r : List Char} {x : Char} {tl : List Char}
    (hword : word = x :: tl) (hn : x ∉ n) :
    textBefore word (n ++ r) = n ++ textBefore word r := by
  induction n with
  | nil => rfl
  | cons c n ih =>
    have hne : x ≠ c := fun h => hn (by simp [h])
    have hnot : word.isPrefixOf (c :: (n ++ r)) = false := by
      simp [hword, List.isPrefixOf, hne]
    rw [List.cons_append, textBefore, if_neg (by simp [hnot]),
      ih fun h => hn (List.mem_cons_of_mem _ h)]
    rfl

/-- Names between commas hold no generic requirement. -/
theorem textBefore_names {is : List (List Char)} (h : ∀ i ∈ is, PlainName i) :
    textBefore " where ".toList (join commaSpace is) = join commaSpace is := by
  have hword : " where ".toList = ' ' :: "where ".toList := rfl
  have hspace : ∀ i, PlainName i → ' ' ∉ i := by
    intro i hi hmem
    exact absurd (hi.all ' ' hmem) (by decide)
  induction is with
  | nil => rfl
  | cons i is ih =>
    have hi := hspace i (h i List.mem_cons_self)
    have his : ∀ j ∈ is, PlainName j := fun j hj => h j (List.mem_cons_of_mem _ hj)
    cases is with
    | nil =>
      have := textBefore_append (r := []) hword hi
      simpa [join, textBefore] using this
    | cons j js =>
      -- the blank before a name is the only one that the requirement might begin with
      have hblank : " where ".toList.isPrefixOf (' ' :: join commaSpace (j :: js)) = false := by
        have hj := hspace j (his j List.mem_cons_self)
        have hcomma : ∀ tl : List Char, (∀ y ∈ tl.head?, y = ',') →
            "where ".toList.isPrefixOf (j ++ tl) = false := by
          intro tl htl
          refine isPrefixOf_append_false (x := ' ') (by decide) hj fun y hy => ?_
          rw [htl y hy]
          decide
        have key : "where ".toList.isPrefixOf (join commaSpace (j :: js)) = false := by
          cases js with
          | nil =>
            have := hcomma [] (by simp)
            rwa [List.append_nil] at this
          | cons l ls =>
            rw [join_cons _ _ (List.cons_ne_nil _ _), List.append_assoc]
            exact hcomma _ (by simp [commaSpace])
        rw [hword, List.isPrefixOf, key]
        rfl
      have htail := ih his
      rw [join_cons _ _ (List.cons_ne_nil _ _), List.append_assoc, textBefore_append hword hi]
      congr 1
      simp only [commaSpace, List.cons_append, List.nil_append]
      rw [textBefore, if_neg (by simp [List.isPrefixOf]), textBefore, if_neg (by
        rw [show [',', ' '] = commaSpace from rfl, hblank]; decide),
        show [',', ' '] = commaSpace from rfl, htail]

theorem commaPieces_append (current : List Char) {n : List Char} (hn : ',' ∉ n) (r : List Char) :
    commaPieces current (n ++ r) = commaPieces (n.reverse ++ current) r := by
  induction n generalizing current with
  | nil => rfl
  | cons c n ih =>
    have hne : c ≠ ',' := fun h => hn (by simp [h])
    rw [List.cons_append, commaPieces, if_neg hne, ih _ fun h => hn (List.mem_cons_of_mem _ h)]
    simp

theorem commaPieces_names {is : List (List Char)} (h : ∀ i ∈ is, PlainName i) (hne : is ≠ [])
    (current : List Char) (hcurrent : ∀ ch ∈ current, isSpace ch = true) :
    ((commaPieces current (join commaSpace is)).map trim).filter (!·.isEmpty) = is := by
  have hcomma : ∀ i, PlainName i → ',' ∉ i := by
    intro i hi hmem
    exact absurd (hi.all ',' hmem) (by decide)
  have htrim : ∀ (i cur : List Char), PlainName i → (∀ ch ∈ cur, isSpace ch = true) →
      trim (cur.reverse ++ i) = i := by
    intro i cur hi hcur
    have hdrop : (cur.reverse ++ i).dropWhile isSpace = i := by
      rw [List.dropWhile_append_of_pos fun ch hch => hcur ch (List.mem_reverse.1 hch)]
      obtain ⟨c, rest, rfl, hc, -⟩ := hi
      rw [List.dropWhile_cons_of_neg]
      rw [(isPlainChar_of_isNamePart (isNamePart_of_isNameStart hc)).2]
      decide
    have hplain := IsName.trim (.inl hi)
    rw [trim] at hplain ⊢
    rw [hdrop]
    rwa [show i.dropWhile isSpace = i by
      obtain ⟨c, rest, rfl, hc, -⟩ := hi
      rw [List.dropWhile_cons_of_neg]
      rw [(isPlainChar_of_isNamePart (isNamePart_of_isNameStart hc)).2]
      decide] at hplain
  induction is generalizing current with
  | nil => exact absurd rfl hne
  | cons i is ih =>
    have hi := h i List.mem_cons_self
    have his : ∀ j ∈ is, PlainName j := fun j hj => h j (List.mem_cons_of_mem _ hj)
    have hfull : (!i.isEmpty) = true := by simp [hi.ne_nil]
    cases is with
    | nil =>
      have := commaPieces_append current (hcomma i hi) []
      rw [List.append_nil] at this
      rw [join, this, commaPieces, List.map_cons, List.reverse_append, List.reverse_reverse,
        htrim i current hi hcurrent]
      simp [hi.ne_nil]
    | cons j js =>
      have hblank := ih his (List.cons_ne_nil _ _) [' '] (by decide)
      rw [join_cons _ _ (List.cons_ne_nil _ _), List.append_assoc,
        commaPieces_append _ (hcomma i hi)]
      simp only [commaSpace, List.cons_append, List.nil_append]
      rw [commaPieces, if_pos rfl, commaPieces, if_neg (by decide), List.map_cons,
        List.reverse_append, List.reverse_reverse, htrim i current hi hcurrent, List.filter_cons,
        if_pos hfull]
      rw [show [',', ' '] = commaSpace from rfl, hblank]

theorem join_names_ne_nil {is : List (List Char)} (h : ∀ i ∈ is, PlainName i) (hne : is ≠ []) :
    join commaSpace is ≠ [] := by
  cases is with
  | nil => exact absurd rfl hne
  | cons i is =>
    have hi := (h i List.mem_cons_self).ne_nil
    cases is with
    | nil => exact hi
    | cons j js =>
      rw [join_cons _ _ (List.cons_ne_nil _ _)]
      simp [hi]

theorem passes_names {is : List (List Char)} (h : ∀ i ∈ is, PlainName i) (hne : is ≠ [])
    (r : List Char) :
    PassesExpression ['\x7b'] (join commaSpace is) (join commaSpace is).length r := by
  have hname : ∀ i, PlainName i → ∀ r, PassesExpression ['\x7b'] i i.length r := fun i hi r =>
    passes_name (f := .expression ['\x7b']) (.inl hi)
      (fun c hc => by simpa [Frame.Admits] using ne_of_isNameChar hc (by decide)) [] r
  induction is with
  | nil => exact absurd rfl hne
  | cons i is ih =>
    have hi := h i List.mem_cons_self
    have his : ∀ j ∈ is, PlainName j := fun j hj => h j (List.mem_cons_of_mem _ hj)
    cases is with
    | nil => exact hname i hi r
    | cons j js =>
      have hjs := ih his (List.cons_ne_nil _ _)
      have hcomma : PassesExpression ['\x7b'] [','] 1
          (' ' :: (join commaSpace (j :: js) ++ r)) :=
        passes_plain (f := .expression ['\x7b']) (w := [',']) (by decide) (by decide) [] _
      have hblank : PassesExpression ['\x7b'] [' '] 0 (join commaSpace (j :: js) ++ r) :=
        passes_space (f := .expression ['\x7b']) (by decide) rfl [] _
      rw [join_cons _ _ (List.cons_ne_nil _ _), List.append_assoc]
      have hfollowing := hblank.append_counted hjs (join_names_ne_nil his (List.cons_ne_nil _ _))
      have hseparated := hcomma.append_counted hfollowing (List.cons_ne_nil _ _)
      exact (hname i hi _).append_counted hseparated (by simp [commaSpace])

theorem inheritanceEntries_names {inheritance : List String}
    (h : ∀ i ∈ inheritance, PlainName i.toList) (hne : inheritance ≠ []) :
    inheritanceEntries (String.ofList (join commaSpace (inheritance.map String.toList)))
      = inheritance := by
  have hnames : ∀ i ∈ inheritance.map String.toList, PlainName i := by
    intro i hi
    obtain ⟨name, hname, rfl⟩ := List.mem_map.1 hi
    exact h name hname
  have hpieces := commaPieces_names hnames (by simpa using hne) [] (by simp)
  have hclause : (String.ofList (join commaSpace (inheritance.map String.toList))).toList
      = join commaSpace (inheritance.map String.toList) := String.toList_ofList
  simp only [inheritanceEntries]
  rw [hclause, textBefore_names hnames, hpieces, List.map_map]
  simp [Function.comp_def]

/-- The first and the last character of names between commas are those of names. -/
theorem trim_names {is : List (List Char)} (h : ∀ i ∈ is, PlainName i) :
    trim (' ' :: join commaSpace is) = join commaSpace is := by
  have hspace : ∀ i, PlainName i → ∀ c ∈ i, isSpace c = false := fun i hi c hc =>
    (isPlainChar_of_isNamePart (hi.all c hc)).2
  have hhead : ∀ c ∈ (join commaSpace is).head?, isSpace c = false := by
    intro c hc
    cases is with
    | nil => simp [join] at hc
    | cons i is =>
      have hi := h i List.mem_cons_self
      have hc' : c ∈ i.head? := by
        obtain ⟨x, rest, rfl, -⟩ := hi
        cases is with
        | nil => exact hc
        | cons j js =>
          rw [join_cons _ _ (List.cons_ne_nil _ _)] at hc
          exact hc
      exact hspace i hi c (List.mem_of_mem_head? hc')
  have hlast : ∀ c ∈ (join commaSpace is).getLast?, isSpace c = false := by
    clear hhead
    induction is with
    | nil => simp [join]
    | cons i is ih =>
      have hi := h i List.mem_cons_self
      have his : ∀ j ∈ is, PlainName j := fun j hj => h j (List.mem_cons_of_mem _ hj)
      intro c hc
      cases is with
      | nil => exact hspace i hi c (List.mem_of_getLast? hc)
      | cons j js =>
        have hx := List.getLast?_eq_some_getLast (join_names_ne_nil his (List.cons_ne_nil _ _))
        refine ih his c ?_
        rw [join_cons _ _ (List.cons_ne_nil _ _), List.getLast?_append, hx] at hc
        rw [hx]
        exact hc
  have htrim := trim_eq hhead hlast
  rw [trim] at htrim ⊢
  rw [List.dropWhile_cons_of_pos (by decide)]
  exact htrim

/-! ## The opening of a type -/

theorem readInheritance_printed {inheritance : List String}
    (h : ∀ i ∈ inheritance, PlainName i.toList) (hne : inheritance ≠ []) (r : List Char)
    (p : Nat) :
    ∃ p', readInheritance ⟨p, printInheritance inheritance ++ ' ' :: '\x7b' :: r⟩
      = .ok (inheritance, ⟨p', '\x7b' :: r⟩) := by
  have hnames : ∀ i ∈ inheritance.map String.toList, PlainName i := by
    intro i hi
    obtain ⟨name, hname, rfl⟩ := List.mem_map.1 hi
    exact h name hname
  have hne' : inheritance.map String.toList ≠ [] := by simpa using hne
  have hempty : inheritance.isEmpty = false := by simpa using hne
  have hends : EndsExpression ['\x7b'] ('\x7b' :: r) := by
    intro ch hch
    obtain rfl := Option.some.inj hch
    rfl
  -- a blank, the names, and a blank that does not count
  have hblank : ∀ r, PassesExpression ['\x7b'] [' '] 0 r := fun r =>
    passes_space (f := .expression ['\x7b']) (by decide) rfl [] r
  have hclause := ((hblank _).append_counted (passes_names hnames hne' _)
    (join_names_ne_nil hnames hne')).append (hblank ('\x7b' :: r))
  rw [lastCounted_zero] at hclause
  have hscan := scanExpression_text hclause hends (p + 1)
  rw [List.take_left, List.singleton_append, trim_names hnames] at hscan
  refine ⟨p + 1 + (' ' :: join commaSpace (inheritance.map String.toList) ++ [' ']).length, ?_⟩
  simp only [readInheritance, printInheritance, hempty, Bool.false_eq_true, if_false,
    List.cons_append, Cursor.next?, List.head?_cons, if_true, Cursor.advance_one_cons]
  simp only [List.cons_append, List.append_assoc, List.nil_append] at hscan ⊢
  rw [hscan]
  simp only [inheritanceEntries_names h hne]

/-- The name and inheritance of a type are read up to its opening brace. -/
theorem readTypeOpening_printed {name : String} {inheritance : List String}
    (hname : IsName name.toList) (h : ∀ i ∈ inheritance, PlainName i.toList) (r : List Char)
    (p : Nat) :
    ∃ p', readTypeOpening
        ⟨p, ' ' :: (name.toList ++ (printInheritance inheritance ++ ' ' :: '\x7b' :: r))⟩
      = .ok ((name, inheritance), ⟨p', '\x7b' :: r⟩) := by
  have htrivia : ∀ t : List Char, skipTrivia ⟨p, ' ' :: (name.toList ++ t)⟩
      = .ok ⟨p + 1, name.toList ++ t⟩ := fun t =>
    skipTrivia_text (w := [' ']) (.layout rfl .nil) (hname.begins.append t).solid p
  have hbrace : Solid ('\x7b' :: r) := .of_head (by decide) (by decide)
  cases inheritance with
  | nil =>
    have hread := readQualifiedName?_append (.one hname) (dottedEnd_of_head (c := ' ')
      ('\x7b' :: r) (by decide) (by decide)) (p + 1)
    have hafter : skipTrivia ⟨p + 1 + name.toList.length, ' ' :: '\x7b' :: r⟩
        = .ok ⟨p + 1 + name.toList.length + 1, '\x7b' :: r⟩ :=
      skipTrivia_text (w := [' ']) (.layout rfl .nil) hbrace _
    refine ⟨p + 1 + name.toList.length + 1, ?_⟩
    have hgenerics : skipGenerics ⟨p + 1 + name.toList.length, ' ' :: '\x7b' :: r⟩
        = .ok ⟨p + 1 + name.toList.length, ' ' :: '\x7b' :: r⟩ := by
      rw [skipGenerics, if_neg (by simp [Cursor.next?])]
    have hnone : readInheritance ⟨p + 1 + name.toList.length + 1, '\x7b' :: r⟩
        = .ok ([], ⟨p + 1 + name.toList.length + 1, '\x7b' :: r⟩) := by
      simp [readInheritance, Cursor.next?, Cursor.startsWith]
    simp only [readTypeOpening, printInheritance, List.isEmpty_nil, if_true, List.nil_append,
      htrivia, hread, bind, Except.bind, String.ofList_toList, hgenerics, hafter, hnone,
      Cursor.next?, List.head?_cons, pure, Except.pure]
  | cons i is =>
    have hcolon : printInheritance (i :: is)
        = ':' :: ' ' :: join commaSpace ((i :: is).map String.toList) := rfl
    have hread := readQualifiedName?_append (.one hname) (dottedEnd_of_head (c := ':')
      (' ' :: join commaSpace ((i :: is).map String.toList) ++ ' ' :: '\x7b' :: r)
      (by decide) (by decide)) (p + 1)
    have hafter : Solid (printInheritance (i :: is) ++ ' ' :: '\x7b' :: r) :=
      .of_head (by decide) (by decide)
    obtain ⟨p', hinheritance⟩ := readInheritance_printed h (List.cons_ne_nil _ _) r
      (p + 1 + name.toList.length)
    rw [← List.cons_append, ← hcolon] at hread
    refine ⟨p', ?_⟩
    simp only [readTypeOpening, htrivia, hread, bind, Except.bind, String.ofList_toList]
    have hgenerics : skipGenerics ⟨p + 1 + name.toList.length,
        printInheritance (i :: is) ++ ' ' :: '\x7b' :: r⟩
        = .ok ⟨p + 1 + name.toList.length, printInheritance (i :: is) ++ ' ' :: '\x7b' :: r⟩ := by
      rw [skipGenerics, if_neg (by simp [hcolon, Cursor.next?])]
    simp only [hgenerics, skipTrivia_solid hafter, hinheritance, Cursor.next?, List.head?_cons,
      if_true, pure, Except.pure]

theorem ofKeyword?_keyword (kind : TypeKind) : TypeKind.ofKeyword? kind.keyword = some kind := by
  cases kind <;> rfl

theorem lead_keyword (kind : TypeKind) (r : List Char) (p : Nat) :
    lead ⟨p, kind.keyword.toList ++ ' ' :: r⟩
      = .type kind ⟨p + kind.keyword.toList.length, ' ' :: r⟩ := by
  have hword := readName?_append (.inl (plainName_keyword kind))
    (NameEnd.cons (c := ' ') r (by decide)) p
  simp only [lead, hword, String.ofList_toList, ofKeyword?_keyword]

/-- What stands before the body of a type spells it. -/
theorem spellsOpening_printed (depth : Nat) {kind : TypeKind} {name : String}
    {attributes : List AttributeOutline} {modifiers inheritance : List String}
    (h : PrintableOpening kind name attributes modifiers inheritance) (r : List Char) :
    ∃ t, printAttributes depth attributes ++ (indentation depth ++ (printModifiers modifiers
        ++ (kind.keyword.toList ++ ' ' :: (name.toList ++ (printInheritance inheritance
        ++ ' ' :: '\x7b' :: r)))))
      = indentation depth ++ t ∧ Solid t ∧ (t.head? = some '@' ∨ BeginsToken t) ∧
      r.length < t.length ∧
      SpellsOpening t kind name attributes modifiers inheritance r := by
  have hname := h.isName
  have hend : NameEnd (printInheritance inheritance ++ ' ' :: '\x7b' :: r) := by
    cases inheritance with
    | nil => exact .cons _ (by decide)
    | cons i is => exact .cons _ (by decide)
  have hkeyword : BeginsToken (kind.keyword.toList ++ ' ' :: (name.toList
      ++ (printInheritance inheritance ++ ' ' :: '\x7b' :: r))) :=
    (IsName.begins (.inl (plainName_keyword kind))).append _
  have hbegins : BeginsToken (printModifiers modifiers ++ (kind.keyword.toList ++ ' ' ::
      (name.toList ++ (printInheritance inheritance ++ ' ' :: '\x7b' :: r)))) := by
    have hmodifiers := h.areModifiers
    cases modifiers with
    | nil => exact hkeyword
    | cons m ms =>
      have hm := plainName_modifiers m (hmodifiers m List.mem_cons_self)
      simp only [printModifiers, List.flatMap_cons, List.append_assoc]
      exact (IsName.begins (.inl hm)).append _
  obtain ⟨t, htext, hsolid, hhead, hlen, hread⟩ :=
    readAttributes_printed depth h.attributesPrintable hbegins
  refine ⟨t, htext, hsolid, hhead, ?_, fun p => ?_⟩
  · simp only [List.length_append, List.length_cons] at hlen
    omega
  · obtain ⟨as, p₁, has, rfl⟩ := hread p
    obtain ⟨p₂, hms⟩ := readModifiers_printed h.areModifiers hkeyword
      (readModifiers_keyword hname h.notMemberWord hend) p₁
    obtain ⟨p₃, hopening⟩ := readTypeOpening_printed hname h.arePlainNames r
      (p₂ + kind.keyword.toList.length)
    exact ⟨as, ⟨p₃, '\x7b' :: r⟩, ⟨_, _, _, has, hms, lead_keyword kind _ p₂, hopening⟩, rfl, rfl⟩

/-! ## Case declarations -/

/-- The stop characters of raw values. -/
theorem fitStops_rawValue : FitStops [',', ';', '\n', '\r'] :=
  fitStops_of_all (by decide)

theorem readCaseElement_printed {e : ElementOutline} (h : e.Printable) {w : List Char}
    (hw : w = [' ']) {ch : Char} (r : List Char) (hch : ch = ',' ∨ ch = '\n') (p : Nat) :
    ∃ element p', readCaseElement ⟨p, w ++ (printElement e ++ ch :: r)⟩
      = .ok (element, ⟨p', ch :: r⟩) ∧ element.outline = e := by
  obtain ⟨name, rawValue⟩ := e
  obtain ⟨hname, hraw⟩ := h
  dsimp only at hname hraw
  subst hw
  have htrivia : ∀ t : List Char, skipTrivia ⟨p, ' ' :: (name.toList ++ t)⟩
      = .ok ⟨p + 1, name.toList ++ t⟩ := fun t =>
    skipTrivia_text (w := [' ']) (.layout rfl .nil) (hname.begins.append t).solid p
  have hend : NameEnd (ch :: r) := .cons _ (by rcases hch with rfl | rfl <;> decide)
  have hsolid : InlineSolid (ch :: r) := by
    rcases hch with rfl | rfl
    · exact .of_head (by decide) (by decide)
    · exact .of_head (by decide) (by decide)
  have hvalues : ∀ (q : Nat) (d : Char) (t : List Char), d ≠ '(' →
      skipAssociatedValues ⟨q, d :: t⟩ = .ok ⟨q, d :: t⟩ := by
    intro q d t hd
    rw [skipAssociatedValues, if_neg (by simpa [Cursor.next?] using hd)]
  cases rawValue with
  | none =>
    have hread := readName?_append hname hend (p + 1)
    have hnone : readRawValue ⟨p + 1 + name.toList.length, ch :: r⟩
        = .ok (none, ⟨p + 1 + name.toList.length, ch :: r⟩) := by
      rw [readRawValue, if_neg]
      rcases hch with rfl | rfl <;> simp [Cursor.next?]
    refine ⟨⟨name, none, ⟨p + 1, p + 1 + name.toList.length⟩⟩, p + 1 + name.toList.length, ?_, rfl⟩
    simp only [readCaseElement, printElement, List.append_nil, List.cons_append, List.nil_append,
      htrivia, hread, skipInlineTrivia_solid hsolid, String.ofList_toList]
    rw [hvalues _ _ _ (by rcases hch with rfl | rfl <;> decide)]
    simp only [hnone]
  | some rawValue =>
    have hsimple : PrintableExpression rawValue := .inl (hraw rawValue rfl)
    have hread := readName?_append hname
      (NameEnd.cons (c := ' ') ('=' :: ' ' :: (rawValue.toList ++ ch :: r)) (by decide)) (p + 1)
    have hequals : skipInlineTrivia
        ⟨p + 1 + name.toList.length, ' ' :: '=' :: ' ' :: (rawValue.toList ++ ch :: r)⟩
        = .ok ⟨p + 1 + name.toList.length + 1, '=' :: ' ' :: (rawValue.toList ++ ch :: r)⟩ :=
      skipInlineTrivia_text (w := [' ']) (.blank rfl .nil) (.of_head (by decide) (by decide)) _
    have hvalue : ∀ q : Nat, skipInlineTrivia ⟨q, ' ' :: (rawValue.toList ++ ch :: r)⟩
        = .ok ⟨q + 1, rawValue.toList ++ ch :: r⟩ := by
      intro q
      refine skipInlineTrivia_text (w := [' ']) (.blank rfl .nil) ?_ q
      obtain ⟨body, heq, -⟩ := isSimple_iff.1 (hraw rawValue rfl)
      rw [heq]
      exact .of_head (by decide) (by decide)
    have hends : EndsExpression [',', ';', '\n', '\r'] (ch :: r) := by
      intro x hx
      obtain rfl := Option.some.inj hx
      rcases hch with rfl | rfl <;> rfl
    have hscan := scanExpression_printed hsimple fitStops_rawValue hends
      (p + 1 + name.toList.length + 1 + 1 + 1)
    have hnew : readRawValue ⟨p + 1 + name.toList.length + 1,
        '=' :: ' ' :: (rawValue.toList ++ ch :: r)⟩
        = .ok (some rawValue, ⟨p + 1 + name.toList.length + 1 + 1 + 1 + rawValue.toList.length,
          ch :: r⟩) := by
      simp only [readRawValue, Cursor.next?, List.head?_cons, if_true, Cursor.advance_one_cons,
        hvalue, hscan, hsimple.ne_empty, skipInlineTrivia_solid hsolid]
      rfl
    refine ⟨⟨name, some rawValue, ⟨p + 1, p + 1 + name.toList.length + 1 + 1 + 1
      + rawValue.toList.length⟩⟩, p + 1 + name.toList.length + 1 + 1 + 1 + rawValue.toList.length,
      ?_, rfl⟩
    simp only [readCaseElement, printElement, List.append_assoc, List.cons_append, List.nil_append,
      htrivia, hread, hequals, String.ofList_toList]
    rw [hvalues _ _ _ (by decide)]
    simp only [hnew]

theorem readCaseElements_printed {es : List ElementOutline} (h : ∀ e ∈ es, e.Printable)
    (hne : es ≠ []) (r : List Char) (p : Nat) :
    ∃ elements p', readCaseElements ⟨p, ' ' :: (join commaSpace (es.map printElement) ++ '\n' :: r)⟩
      = .ok (elements, ⟨p', '\n' :: r⟩) ∧ elements.map CaseElement.outline = es := by
  induction es generalizing p with
  | nil => exact absurd rfl hne
  | cons e es ih =>
    have he := h e List.mem_cons_self
    cases es with
    | nil =>
      obtain ⟨element, p', hread, rfl⟩ := readCaseElement_printed he rfl r (.inr rfl) p
      exact ⟨[element], p', readCaseElements_last hread (by simp [Cursor.next?]), rfl⟩
    | cons d ds =>
      obtain ⟨element, p₁, hread, rfl⟩ := readCaseElement_printed he rfl
        (' ' :: (join commaSpace ((d :: ds).map printElement) ++ '\n' :: r)) (.inl rfl) p
      obtain ⟨elements, p', hothers, hmap⟩ :=
        ih (fun x hx => h x (List.mem_cons_of_mem _ hx)) (List.cons_ne_nil _ _) (p₁ + 1)
      rw [← Cursor.advance_one_cons] at hothers
      refine ⟨element :: elements, p', ?_, by rw [List.map_cons, hmap]⟩
      rw [← readCaseElements_more hread rfl hothers]
      simp only [List.map_cons, join_cons _ _ (List.cons_ne_nil _ _), commaSpace,
        List.append_assoc, List.cons_append, List.nil_append]

theorem plainName_case : PlainName "case".toList := by decide

/-- The keyword and what is read as elements spell a case declaration. -/
theorem spellsLeaf_case {t r : List Char} {es : List ElementOutline} (ht : NameEnd t)
    (h : ∀ p, ∃ elements p', readCaseElements ⟨p, t⟩ = .ok (elements, ⟨p', r⟩) ∧
      elements.map CaseElement.outline = es) :
    SpellsLeaf ("case".toList ++ t) (.cases es) r := by
  intro p
  obtain ⟨elements, p', hread, rfl⟩ := h (p + 4)
  have hword : readName? ⟨p, "case".toList ++ t⟩ = some ("case", ⟨p + 4, t⟩) :=
    readName?_append (.inl plainName_case) ht p
  have hmodifiers : readModifiers ⟨p, "case".toList ++ t⟩ = .ok ([], ⟨p, "case".toList ++ t⟩) :=
    readModifiers_nil hword (by
      rw [isModifier, if_neg (by decide)]
      rfl)
  have hlead : lead ⟨p, "case".toList ++ t⟩ = .cases ⟨p + 4, t⟩ := by
    simp only [lead, hword]
    rfl
  refine ⟨.cases elements ⟨p, p'⟩, ⟨p', r⟩, .cases (readAttributes_nil ?_) hmodifiers hlead ?_,
    rfl, rfl⟩
  · simp [Cursor.next?]
  · simp only [readCases, hread]

/-- A case declaration spells its elements. -/
theorem spellsLeaf_cases {es : List ElementOutline} (h : ∀ e ∈ es, e.Printable) (hne : es ≠ [])
    (r : List Char) :
    SpellsLeaf ("case ".toList ++ (join commaSpace (es.map printElement) ++ '\n' :: r))
      (.cases es) ('\n' :: r) :=
  spellsLeaf_case (t := ' ' :: (join commaSpace (es.map printElement) ++ '\n' :: r))
    (.cons _ (by decide)) (readCaseElements_printed h hne r)

/-! ## Forests -/

/-- What closes a printed forest: its end, or the brace of the type around it. -/
def ClosesPrinted (closing : Option Char) : Prop := closing = none ∨ closing = some '\x7d'

theorem atDeclaration_printed {closing : Option Char} (hclosing : ClosesPrinted closing)
    {t : List Char} (ht : t.head? = some '@' ∨ BeginsToken t) :
    t.head? ≠ closing ∧ t.head? ≠ some ';' := by
  rcases ht with ht | ht
  · rw [ht]
    rcases hclosing with rfl | rfl <;> decide
  · refine ⟨?_, ht.head_ne (by decide) (by decide)⟩
    rcases hclosing with rfl | rfl
    · obtain ⟨ch, rest, rfl, -⟩ := ht
      simp
    · exact ht.head_ne (by decide) (by decide)

theorem trivia_line (depth : Nat) {v r : List Char} (hv : ∀ ch ∈ v, isLayout ch = true) :
    Trivia (v ++ indentation depth) r := by
  refine trivia_of_layout fun ch hch => ?_
  rcases List.mem_append.1 hch with hch | hch
  · exact hv ch hch
  · exact layout_indentation depth ch hch

/-- **A printed forest spells itself.** White space may stand before it, and `w` between it and
what closes it. -/
theorem spells_printAll (limit : Int) (levels : Nat) (closing : Option Char)
    (depth : Nat) (os : List Outline) {v w r : List Char} (h : AllPrintable os)
    (hdepth : depths os ≤ levels) (hv : ∀ ch ∈ v, isLayout ch = true)
    (hw : ∀ ch ∈ w, isLayout ch = true) (hr : Solid r) (hhead : r.head? = closing)
    (hclosing : ClosesPrinted closing) :
    Spells limit levels closing (v ++ (printAll depth os ++ (w ++ r))) os r := by
  match os, h, hdepth with
  | [], _, _ =>
    rw [printAll, List.nil_append, ← List.append_assoc]
    refine .done (trivia_of_layout fun ch hch => ?_) hr hhead
    rcases List.mem_append.1 hch with hch | hch
    · exact hv ch hch
    · exact hw ch hch
  | .other .. :: rest, h, _ => exact absurd h.1 id
  | .cases elements :: rest, ⟨⟨hne, helements⟩, hrest⟩, hdepth =>
    have hdepth' : depths rest ≤ levels := by
      simp only [depths, Outline.depth] at hdepth
      omega
    have hspells := spells_printAll limit levels closing depth rest (v := ['\n'])
      hrest hdepth' (by decide) hw hr hhead hclosing
    have hleaf := spellsLeaf_cases helements hne (printAll depth rest ++ (w ++ r))
    have hbegins : BeginsToken ("case ".toList ++ (join commaSpace (elements.map printElement)
        ++ '\n' :: (printAll depth rest ++ (w ++ r)))) := ⟨'c', _, rfl, .inl (by decide)⟩
    obtain ⟨hat, hsemicolon⟩ := atDeclaration_printed hclosing (.inr hbegins)
    have hkeyword : "case ".toList.length = 5 := rfl
    have := Spells.leaf (trivia_line depth hv) hbegins.solid hat hsemicolon hleaf
      (by simp only [List.length_append, List.length_cons]; omega) hspells
    simpa only [printAll, Outline.print, List.append_assoc, List.cons_append, List.nil_append]
      using this
  | .type kind name attributes modifiers inheritance members :: rest,
      ⟨⟨hopening, hmembers⟩, hrest⟩, hdepth =>
    simp only [depths, Outline.depth] at hdepth
    obtain ⟨levels, rfl⟩ : ∃ n, levels = n + 1 := ⟨levels - 1, by omega⟩
    -- after the closing brace the line ends, and the rest of the forest begins
    have hspells := spells_printAll limit (levels + 1) closing depth rest
      (v := ['\n']) hrest (by omega) (by decide) hw hr hhead hclosing
    have hbody := spells_printAll limit levels (some '\x7d')
      (depth + 1) members (v := ['\n'])
      (r := '\x7d' :: ('\n' :: (printAll depth rest ++ (w ++ r)))) hmembers (by omega) (by decide)
      (layout_indentation depth) (.of_head (by decide) (by decide)) rfl (.inr rfl)
    obtain ⟨t, htext, hsolid, ht, hlen, hspellsOpening⟩ := spellsOpening_printed depth hopening
      ('\n' :: (printAll (depth + 1) members ++ (indentation depth
        ++ ('\x7d' :: ('\n' :: (printAll depth rest ++ (w ++ r)))))))
    obtain ⟨hat, hsemicolon⟩ := atDeclaration_printed hclosing ht
    have := Spells.type (trivia_line depth hv) hsolid hat hsemicolon hspellsOpening hlen hbody
      hspells
    rw [List.append_assoc, ← htext] at this
    simpa only [printAll, Outline.print, List.append_assoc, List.cons_append, List.nil_append]
      using this
termination_by sizeOf os

/-- **Reading inverts printing.** A forest that can be printed is read back from its text, if its
types are not nested too deeply and the text is not too long. -/
theorem readSource_printAll {limits : Limits} {forest : List Outline} (h : AllPrintable forest)
    (hdepth : depths forest ≤ limits.maxNestingDepth.toNat)
    (hsize : limits.maxSourceSize ≤ 0 ∨ (printAll 0 forest).length ≤ limits.maxSourceSize) :
    ∃ ds, readSource limits (printAll 0 forest) = .ok ds ∧ outlines ds = forest := by
  have hspells := spells_printAll limits.maxNestingDepth _ none 0 forest
    (v := []) (w := []) (r := []) h hdepth (by simp) (by simp) trivial rfl (.inl rfl)
  obtain ⟨ds, c', hreads, hds, -⟩ := hspells 0
  simp only [List.nil_append, List.append_nil] at hreads
  refine ⟨ds, ?_, hds⟩
  rw [readSource, if_neg (by omega)]
  simp only [Cursor.start, hreads.run]

/-- An annotated enumeration with its keys, some of which look like structure. -/
def keyForest : List Outline :=
  [.type .enumType "L" [⟨"My.LocalizedStrings", some [⟨some "prefix", "\"a,(\x7d\""⟩, ⟨none, "b"⟩]⟩]
    [] []
    [.type .enumType "Strings" [] ["private"] ["String", "Sendable"]
      [.cases [⟨"a", some "\"// \\\" \x7b\""⟩, ⟨"\x60default\x60", none⟩]]]]

example : String.ofList (printAll 0 keyForest) =
    "@My.LocalizedStrings(prefix: \"a,(\x7d\", b)\nenum L \x7b\n    private enum Strings: String, Sendable \x7b\n        case a = \"// \\\" \x7b\", \x60default\x60\n    \x7d\n\x7d\n" := by
  decide +kernel

theorem allPrintable_keyForest : AllPrintable keyForest := by
  have hplain : ∀ cs : List Char, PlainName cs → IsName cs := fun _ h => .inl h
  refine ⟨⟨⟨hplain _ (by decide), fun h => absurd h (by decide), ?_, by simp, by simp⟩,
    ⟨⟨⟨hplain _ (by decide), fun h => absurd h (by decide), by simp, by decide, ?_⟩,
      ⟨⟨by simp, ?_⟩, trivial⟩⟩, trivial⟩⟩, trivial⟩
  · intro a ha
    rw [List.mem_singleton.1 ha]
    refine ⟨?_, ?_⟩
    · exact .more (n := "My".toList) (q := "LocalizedStrings".toList)
        (hplain _ (by decide)) (.one (hplain _ (by decide)))
    · intro arguments harguments argument hargument
      obtain rfl := Option.some.inj harguments
      simp only [List.mem_cons, List.not_mem_nil, or_false] at hargument
      rcases hargument with rfl | rfl
      · refine ⟨fun label hlabel => ?_, .inl (by decide)⟩
        obtain rfl := Option.some.inj hlabel
        exact hplain _ (by decide)
      · exact ⟨by simp, .inr (hplain _ (by decide))⟩
  · intro i hi
    simp only [List.mem_cons, List.not_mem_nil, or_false] at hi
    rcases hi with rfl | rfl <;> decide
  · intro e he
    simp only [List.mem_cons, List.not_mem_nil, or_false] at he
    rcases he with rfl | rfl
    · refine ⟨hplain _ (by decide), fun v hv => ?_⟩
      obtain rfl := Option.some.inj hv
      decide
    · exact ⟨.inr ⟨"default".toList, by decide, rfl⟩, by simp⟩

theorem readSource_keyForest :
    AllPrintable keyForest ∧ depths keyForest ≤ ({} : Limits).maxNestingDepth.toNat ∧
      ((printAll 0 keyForest).length : Int) ≤ ({} : Limits).maxSourceSize ∧
      ∃ ds, readSource {} (printAll 0 keyForest) = .ok ds ∧ outlines ds = keyForest := by
  have hdepth : depths keyForest ≤ ({} : Limits).maxNestingDepth.toNat := by decide +kernel
  have hsize : ((printAll 0 keyForest).length : Int) ≤ ({} : Limits).maxSourceSize := by
    decide +kernel
  exact ⟨allPrintable_keyForest, hdepth, hsize,
    readSource_printAll allPrintable_keyForest hdepth (.inr hsize)⟩

end LocalizedKeys.Swift
