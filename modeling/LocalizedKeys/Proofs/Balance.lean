import LocalizedKeys.Proofs.Tokens

/-!
# Balanced sources

Every reader of a declaration goes through whole tokens, balanced among themselves (`Covers`): one
lemma for each, in the order in which they are built on each other, and at the end the whole of a
source (`tokens_of_readSource`).

Generic parameters are the one thing that is passed without a look at what is in there: up to the
closing angle bracket everything goes. So the readers of types are followed where no such clause
stands behind the name of a type.
-/

namespace LocalizedKeys.Swift

open Cursor

variable {c c' : Cursor}

/-! ## Attributes -/

theorem covers_readLabel {label : Option String} (h : readLabel c = .ok (label, c')) :
    Covers c c' := by
  rcases readLabel_spec h with ⟨-, -, rfl⟩ | ⟨name, after, colon, hname, hcolon,
    ⟨hnext, -, hafter⟩ | ⟨-, -, rfl⟩⟩
  · exact .refl c'
  · exact (covers_readName? hname).trans ((covers_skipTrivia hcolon).trans
      ((covers_plain hnext.1 rfl).trans (covers_skipTrivia hafter)))
  · -- what looked like a label belongs to the expression
    exact .refl c'

theorem covers_readArgument {a : Argument} (h : readArgument c = .ok (a, c')) :
    Covers c c' := by
  obtain ⟨c₁, hlabel, hexpression, -⟩ := readArgument_spec h
  exact (covers_readLabel hlabel).trans (covers_scanExpression hexpression)

/-- The arguments are covered up to the parenthesis behind them. -/
theorem covers_readArguments {as : List Argument} (h : readArguments c = .ok (as, c')) :
    ∃ close, Covers c close ∧ close.next? = some ')' ∧ c' = close.advance 1 := by
  fun_induction readArguments c generalizing as c' with
  | case2 c a c₁ ha hclose =>
    obtain ⟨-, rfl⟩ := Prod.mk.inj (Except.ok.inj h)
    exact ⟨c₁, covers_readArgument ha, hclose, rfl⟩
  | case5 c a c₁ ha hclose hcomma c₂ htrivia others c₃ hrest ih =>
    obtain ⟨-, rfl⟩ := Prod.mk.inj (Except.ok.inj h)
    obtain ⟨close, hcovers, hnext, hc'⟩ := ih hrest
    have h₁ := (covers_readArgument ha).trans (covers_plain hcomma rfl)
    exact ⟨close, h₁.trans ((covers_skipTrivia htrivia).trans hcovers), hnext, hc'⟩
  | case1 | case3 | case4 | case6 => simp at h

theorem covers_readArgumentList {as : List Argument} (hopening : c.next? = some '(')
    (h : readArgumentList c = .ok (as, c')) : Covers c c' := by
  unfold readArgumentList at h
  split at h
  · simp at h
  · rename_i c₁ htrivia
    have h₁ := covers_skipTrivia htrivia
    split at h
    · rename_i hnext
      obtain ⟨-, rfl⟩ := Prod.mk.inj (Except.ok.inj h)
      exact h₁.group hopening rfl hnext
    · obtain ⟨close, hcovers, hnext, rfl⟩ := covers_readArguments h
      exact (h₁.trans hcovers).group hopening rfl hnext

theorem covers_readAttribute {a : Attribute} (hat : c.next? = some '@')
    (h : readAttribute c = .ok (a, c')) : Covers c c' := by
  unfold readAttribute at h
  split at h
  · simp at h
  · rename_i name c₁ hname
    have h₁ := (covers_plain hat rfl).trans (covers_readQualifiedName? hname)
    split at h
    · rename_i hopening
      split at h
      · simp at h
      · rename_i hlist
        obtain ⟨-, rfl⟩ := Prod.mk.inj (Except.ok.inj h)
        exact h₁.trans (covers_readArgumentList hopening hlist)
    · obtain ⟨-, rfl⟩ := Prod.mk.inj (Except.ok.inj h)
      exact h₁

theorem covers_readAttributes {as : List Attribute} (h : readAttributes c = .ok (as, c')) :
    Covers c c' := by
  fun_induction readAttributes c generalizing as c' with
  | case4 c hat a c₁ ha c₂ htrivia others c₃ hrest ih =>
    obtain ⟨-, rfl⟩ := Prod.mk.inj (Except.ok.inj h)
    exact (covers_readAttribute hat ha).trans ((covers_skipTrivia htrivia).trans (ih hrest))
  | case5 =>
    obtain ⟨-, rfl⟩ := Prod.mk.inj (Except.ok.inj h)
    exact .refl _
  | case1 | case2 | case3 => simp at h

/-! ## Modifiers -/

theorem covers_skipModifierArgument (h : skipModifierArgument c = .ok c') : Covers c c' := by
  unfold skipModifierArgument at h
  split at h
  · rename_i hopening
    split at h
    · simp at h
    · rename_i hgroup
      exact (covers_skipGroup hopening rfl hgroup).trans (covers_skipTrivia h)
  · exact covers_skipTrivia h

theorem covers_readModifiers {ms : List String} (h : readModifiers c = .ok (ms, c')) :
    Covers c c' := by
  fun_induction readModifiers c generalizing ms c' with
  | case1 | case3 =>
    obtain ⟨-, rfl⟩ := Prod.mk.inj (Except.ok.inj h)
    exact .refl _
  | case6 c word c₁ hname hword c₂ hargument others c₃ hrest ih =>
    obtain ⟨-, rfl⟩ := Prod.mk.inj (Except.ok.inj h)
    exact (covers_readName? hname).trans
      ((covers_skipModifierArgument hargument).trans (ih hrest))
  | case2 | case4 | case5 => simp at h

/-! ## Declarations that hold no others -/

theorem covers_skipAssociatedValues (h : skipAssociatedValues c = .ok c') : Covers c c' := by
  unfold skipAssociatedValues at h
  split at h
  · rename_i hopening
    split at h
    · simp at h
    · rename_i hgroup
      exact (covers_skipGroup hopening rfl hgroup).trans (covers_skipInlineTrivia h)
  · obtain rfl := Except.ok.inj h
    exact .refl c

theorem covers_readRawValue {rawValue : Option String} (h : readRawValue c = .ok (rawValue, c')) :
    Covers c c' := by
  unfold readRawValue at h
  split at h
  · rename_i hequals
    split at h
    · simp at h
    · rename_i htrivia
      split at h
      · simp at h
      · rename_i hscan
        split at h
        · simp at h
        · split at h
          · simp at h
          · rename_i hafter
            obtain ⟨-, rfl⟩ := Prod.mk.inj (Except.ok.inj h)
            exact (covers_plain hequals rfl).trans ((covers_skipInlineTrivia htrivia).trans
              ((covers_scanExpression hscan).trans (covers_skipInlineTrivia hafter)))
  · obtain ⟨-, rfl⟩ := Prod.mk.inj (Except.ok.inj h)
    exact .refl c

theorem covers_readCaseElement {element : CaseElement}
    (h : readCaseElement c = .ok (element, c')) : Covers c c' := by
  obtain ⟨start, name, c₁, c₂, c₃, rawValue, htrivia, hname, hinline, hvalues, hraw, -⟩ :=
    readCaseElement_spec h
  exact (covers_skipTrivia htrivia).trans ((covers_readName? hname).trans
    ((covers_skipInlineTrivia hinline).trans ((covers_skipAssociatedValues hvalues).trans
      (covers_readRawValue hraw))))

theorem covers_readCaseElements {elements : List CaseElement}
    (h : readCaseElements c = .ok (elements, c')) : Covers c c' := by
  fun_induction readCaseElements c generalizing elements c' with
  | case3 c e c₁ he hcomma others c₂ hrest ih =>
    obtain ⟨-, rfl⟩ := Prod.mk.inj (Except.ok.inj h)
    exact (covers_readCaseElement he).trans ((covers_plain hcomma rfl).trans (ih hrest))
  | case4 c e c₁ he hcomma =>
    obtain ⟨-, rfl⟩ := Prod.mk.inj (Except.ok.inj h)
    exact covers_readCaseElement he
  | case1 | case2 => simp at h

theorem covers_readCases {start : Nat} {d : Declaration} (h : readCases start c = .ok (d, c')) :
    Covers c c' := by
  unfold readCases at h
  split at h
  · simp at h
  · rename_i helements
    obtain ⟨-, rfl⟩ := Prod.mk.inj (Except.ok.inj h)
    exact covers_readCaseElements helements

/-- The place behind the word by which a declaration is known, if there is one. -/
def Lead.after? : Lead → Option Cursor
  | .type _ after => some after
  | .cases after => some after
  | .other => none

theorem covers_lead {after : Cursor} (h : (lead c).after? = some after) : Covers c after := by
  unfold lead at h
  cases hname : readName? c with
  | none => simp [hname, Lead.after?] at h
  | some r =>
    obtain ⟨word, after'⟩ := r
    have hafter : after' = after := by
      rw [hname] at h
      dsimp only at h
      split at h
      · exact Option.some.inj h
      · split at h
        · exact Option.some.inj h
        · simp [Lead.after?] at h
    exact covers_readName? (hafter ▸ hname)

theorem covers_readOther {start : Cursor} {attributes : List Attribute} {modifiers : List String}
    {d : Declaration} (h : readOther start attributes modifiers c = .ok (d, c')) :
    Covers c c' := by
  unfold readOther at h
  split at h
  · simp at h
  · rename_i hscan
    split at h
    · simp at h
    · obtain ⟨-, rfl⟩ := Prod.mk.inj (Except.ok.inj h)
      exact covers_scanExpression hscan

theorem covers_readsLeaf {d : Declaration} (h : ReadsLeaf c d c') : Covers c c' := by
  cases h with
  | other hattributes hmodifiers hlead hother =>
    exact (covers_readAttributes hattributes).trans
      ((covers_readModifiers hmodifiers).trans (covers_readOther hother))
  | cases hattributes hmodifiers hlead hcases =>
    exact (covers_readAttributes hattributes).trans ((covers_readModifiers hmodifiers).trans
      ((covers_lead (by rw [hlead]; rfl)).trans (covers_readCases hcases)))

/-! ## Types without generic parameters -/

/-- The place behind the name of the type whose declaration starts at a cursor. -/
def typeNameEnd? (c : Cursor) : Option Cursor :=
  match readAttributes c with
  | .error _ => none
  | .ok (_, c₁) =>
    match readModifiers c₁ with
    | .error _ => none
    | .ok (_, c₂) =>
      match lead c₂ with
      | .type _ after =>
        match skipTrivia after with
        | .error _ => none
        | .ok c₃ => (readQualifiedName? c₃).map Prod.snd
      | _ => none

/-- Whether a clause of generic parameters stands behind the name of a type. -/
def TypeHeader.isGeneric (source : List Char) (header : TypeHeader) : Bool :=
  match typeNameEnd? (Cursor.seek source header.span.start) with
  | some c => c.next? == some '<'
  | none => false

theorem covers_readInheritance {is : List String} (h : readInheritance c = .ok (is, c')) :
    Covers c c' := by
  unfold readInheritance at h
  split at h
  · rename_i hcolon
    split at h
    · simp at h
    · rename_i hscan
      obtain ⟨-, rfl⟩ := Prod.mk.inj (Except.ok.inj h)
      exact (covers_plain hcolon rfl).trans (covers_scanExpression hscan)
  · split at h
    · split at h
      · simp at h
      · rename_i hscan
        obtain ⟨-, rfl⟩ := Prod.mk.inj (Except.ok.inj h)
        exact covers_scanExpression hscan
    · obtain ⟨-, rfl⟩ := Prod.mk.inj (Except.ok.inj h)
      exact .refl c

/-- The opening of a type is covered if no generic parameters stand in it. -/
theorem covers_readsOpening {kind : TypeKind} {name : String} {attributes : List Attribute}
    {modifiers inheritance : List String} {brace : Cursor}
    (h : ReadsOpening c kind name attributes modifiers inheritance brace)
    (hgeneric : ∀ nameEnd, typeNameEnd? c = some nameEnd → nameEnd.next? ≠ some '<') :
    Covers c brace ∧ brace.next? = some '\x7b' := by
  obtain ⟨c₁, c₂, after, hattributes, hmodifiers, hlead, hopening⟩ := h
  obtain ⟨d₁, d₂, d₃, d₄, htrivia, hname, hgenerics, htrivia', hinheritance, hbrace⟩ :=
    readTypeOpening_spec hopening
  -- no angle bracket stands where the reader looks for one, so nothing is skipped there
  have hnameEnd : typeNameEnd? c = some d₂ := by
    simp only [typeNameEnd?, hattributes, hmodifiers, hlead, htrivia, hname, Option.map_some]
  rw [skipGenerics, if_neg (hgeneric d₂ hnameEnd)] at hgenerics
  obtain rfl := Except.ok.inj hgenerics
  refine ⟨?_, hbrace⟩
  have h₁ := (covers_readAttributes hattributes).trans
    ((covers_readModifiers hmodifiers).trans (covers_lead (by rw [hlead]; rfl)))
  exact h₁.trans ((covers_skipTrivia htrivia).trans ((covers_readQualifiedName? hname).trans
    ((covers_skipTrivia htrivia').trans (covers_readInheritance hinheritance))))

/-! ## Forests -/

/-- **What is read as declarations is covered**, if no type among them has generic parameters. -/
theorem Reads.covers {source : List Char} {limit : Int} {levels : Nat} {closing : Option Char}
    {ds : List Declaration} (h : Reads limit levels closing c ds c') (hc : c.At source)
    (hgeneric : ∀ t ∈ types ds, t.isGeneric source = false) : Covers c c' := by
  induction h with
  | done htrivia _ => exact covers_skipTrivia htrivia
  | semicolon htrivia _ hsemicolon _ ih =>
    have hat := ((reaches_skipTrivia htrivia).trans (reaches_advance _ 1)).at_of hc
    exact (covers_skipTrivia htrivia).trans ((covers_plain hsemicolon rfl).trans (ih hat hgeneric))
  | leaf htrivia _ hleaf _ _ ih =>
    have hat := ((reaches_skipTrivia htrivia).trans (reaches_readsLeaf hleaf)).at_of hc
    rw [types_cons_leaf hleaf] at hgeneric
    exact (covers_skipTrivia htrivia).trans ((covers_readsLeaf hleaf).trans (ih hat hgeneric))
  | @type levels closing c c₁ brace close c' _ _ _ _ _ members ds htrivia _ hopening _ hmembers _
      ihMembers ih =>
    rw [types, Declaration.types, List.cons_append] at hgeneric
    have hat₁ := (reaches_skipTrivia htrivia).at_of hc
    have hatMembers :=
      ((reaches_readsOpening hopening).1.trans (reaches_advance brace 1)).at_of hat₁
    have hatRest := (hmembers.reaches.trans (reaches_advance close 1)).at_of hatMembers
    -- the declaration of the type is found again at the start of its span
    have hname : ∀ nameEnd, typeNameEnd? c₁ = some nameEnd → nameEnd.next? ≠ some '<' := by
      intro nameEnd hnameEnd
      have hthis := hgeneric _ List.mem_cons_self
      rw [TypeHeader.isGeneric, hat₁.seek_eq, hnameEnd] at hthis
      exact beq_eq_false_iff_ne.1 hthis
    obtain ⟨hcovers, hbrace⟩ := covers_readsOpening hopening hname
    have hinner := ihMembers hatMembers fun t ht =>
      hgeneric t (List.mem_cons_of_mem _ (List.mem_append_left _ ht))
    have hrest := ih hatRest fun t ht =>
      hgeneric t (List.mem_cons_of_mem _ (List.mem_append_right _ ht))
    exact (covers_skipTrivia htrivia).trans (hcovers.trans
      ((hinner.group hbrace rfl hmembers.next?).trans hrest))

/-- **A source that is read as declarations is balanced.** It can be taken apart into tokens, all of
it, and the brackets among them are closed in pairs of one kind, the inner ones before the outer
ones. Types with generic parameters are left out: what stands in those is read by none of these
rules. -/
theorem tokens_of_readSource {limits : Limits} {source : List Char} {ds : List Declaration}
    (h : readSource limits source = .ok ds)
    (hgeneric : ∀ t ∈ types ds, t.isGeneric source = false) :
    ∃ ts, tokens (Cursor.start source) = .ok ts ∧ ts.flatMap Token.text = source ∧
      Balanced ts := by
  obtain ⟨c', hreads⟩ := reads_of_readSource h
  obtain ⟨ts, hlexes, hbalanced⟩ := hreads.covers (Cursor.start_at source) hgeneric
  -- declarations of a source are read up to its end
  have hend : c'.rest = [] := List.head?_eq_none_iff.1 hreads.next?
  refine ⟨ts, hlexes.tokens_eq hend, ?_, hbalanced⟩
  have hsource := hlexes.moves.1
  rw [hend, List.append_nil] at hsource
  exact hsource.symm

/-- Brackets that do not count: in comments one inside the other, in literals with interpolations
and hash marks, and between quotes inside of those. -/
def bracketedSource : List Char :=
  "// \x7d in a line\n@A(x: \"\\(f(\"(\")) ]\", [1, \x7b $0 \x7d])\npublic enum T: P \x7b\n  /* ( /* [ */ \x7d */\n  enum S \x7b case a(Int), b = #\"\\#(g([\")\"])) \\( \"# ; \x7d\n\x7d\n".toList

theorem tokens_of_readSource_bracketedSource :
    ∃ ds ts, readSource {} bracketedSource = .ok ds ∧
      (∀ t ∈ types ds, t.isGeneric bracketedSource = false) ∧ (types ds).length = 2 ∧
      tokens (Cursor.start bracketedSource) = .ok ts ∧
      ts.flatMap Token.text = bracketedSource ∧ Balanced ts := by
  have hchecked : (readSource {} bracketedSource).toOption.any (fun ds =>
      (types ds).length == 2 && (types ds).all fun t => !t.isGeneric bracketedSource) = true := by
    decide +kernel
  cases hread : readSource {} bracketedSource with
  | error f => simp [hread, Except.toOption] at hchecked
  | ok ds =>
    simp only [hread, Except.toOption, Option.any_some, Bool.and_eq_true, beq_iff_eq,
      List.all_eq_true, Bool.not_eq_true'] at hchecked
    obtain ⟨ts, hts⟩ := tokens_of_readSource hread hchecked.2
    exact ⟨ds, ts, rfl, hchecked.2, hchecked.1, hts⟩

/-- What stands between angle brackets is not looked at. -/
example : (readSource {} "enum A<(> \x7b \x7d".toList).isOk = true ∧
    (tokens (Cursor.start "enum A<(> \x7b \x7d".toList)).toOption.any
      (fun ts => decide (¬Balanced ts)) = true := by decide +kernel

end LocalizedKeys.Swift
