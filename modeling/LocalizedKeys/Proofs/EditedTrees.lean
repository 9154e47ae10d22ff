import LocalizedKeys.Proofs.Detached
import LocalizedKeys.Proofs.Edited
import LocalizedKeys.Proofs.Joined

/-!
# The tree of an edited source

A source is read again after the edits of an expansion. `Adds` says what the edits for one type
come to: nothing, or its annotation goes and new members come in front of its closing brace.
`outlinesWith` is the tree that this should give, and `spells_edited` is the proof that it is read.

The induction is on how the source was read, from its end to its front. Behind a place of the source
stand edits that follow it (`Follows`), and what is read from there on in the edited text is known
already. A declaration in front of that place is either not touched by the first of the edits, so
that the reader goes over it as before (`Follows.leaf`, `Follows.opening`), or it is the type to
which the edit belongs. Then what stands before its body is read without the annotation
(`Follows.opening_detached`), and at its brace the new members are read (`Adds.closes`).

Attributes and modifiers in front of a brace would be taken for those of a new member, so the last
member of a type that gets new ones may not be bare.
-/

namespace LocalizedKeys

namespace Swift

open Text Cursor

variable {limit : Int} {levels : Nat} {closing : Option Char} {w t rest source : List Char}
  {os : List Outline} {c c' c₁ c₂ : Cursor} {d : Declaration} {ds : List Declaration}
  {kind : TypeKind} {name : String} {modifiers inheritance : List String}

/-! ## More texts that spell a forest -/

theorem Spells.trivia (hw : Trivia w t) (h : Spells limit levels closing t os rest) :
    Spells limit levels closing (w ++ t) os rest := by
  intro p
  obtain ⟨ds, c', hds, houtlines, hrest⟩ := h (p + w.length)
  exact ⟨ds, c', hds.of_skipTrivia_eq (skipTrivia_append hw p), houtlines, hrest⟩

theorem Spells.semicolon (hclosing : closing ≠ some ';')
    (h : Spells limit levels closing t os rest) :
    Spells limit levels closing (';' :: t) os rest := by
  intro p
  obtain ⟨ds, c', hds, houtlines, hrest⟩ := h (p + 1)
  have hadvance := Cursor.advance_one (c := ⟨p, ';' :: t⟩) rfl
  rw [← hadvance] at hds
  exact ⟨ds, c', .semicolon (skipTrivia_solid (.of_head (by decide) (by decide)) p)
    (fun h => hclosing h.symm) rfl hds, houtlines, hrest⟩

/-- What stands before the body of a type begins with an attribute or a name. -/
theorem ReadsOpening.begins {as : List Attribute} {brace : Cursor}
    (h : ReadsOpening c kind name as modifiers inheritance brace) :
    c.rest.head? = some '@' ∨ BeginsToken c.rest := by
  obtain ⟨c₁, c₂, after, hattributes, hmodifiers, hlead, -⟩ := h
  by_cases hat : c.next? = some '@'
  · exact .inl hat
  · rw [readAttributes_nil hat] at hattributes
    obtain ⟨-, rfl⟩ := Prod.mk.inj (Except.ok.inj hattributes)
    cases hname : readName? c with
    | none =>
      rw [readModifiers_noName hname] at hmodifiers
      obtain ⟨-, rfl⟩ := Prod.mk.inj (Except.ok.inj hmodifiers)
      simp [lead, hname] at hlead
    | some r =>
      obtain ⟨n, hmoves, hn, -⟩ := readName?_spec hname
      rw [hmoves.1]
      exact .inr (hn.begins.append _)

theorem SpellsOpening.solid {attributes : List AttributeOutline} {body : List Char}
    (h : SpellsOpening t kind name attributes modifiers inheritance body) : Solid t := by
  obtain ⟨as, brace, hreads, -⟩ := h 0
  rcases hreads.begins with hhead | htoken
  · obtain ⟨r, rfl⟩ := List.head?_eq_some_iff.1 hhead
    exact .of_head (by decide) (by decide)
  · exact htoken.solid

/-- A type is spelled by what stands before its body, its members and what comes behind it. -/
theorem Spells.of_opening {attributes : List AttributeOutline} {members : List Outline}
    {body r : List Char} (hclosing : ClosesPrinted closing)
    (hopening : SpellsOpening t kind name attributes modifiers inheritance body)
    (hmembers : Spells limit levels (some '\x7d') body members ('\x7d' :: r))
    (h : Spells limit (levels + 1) closing r os rest) :
    Spells limit (levels + 1) closing t
      (.type kind name attributes modifiers inheritance members :: os) rest := by
  obtain ⟨as, brace, hreads, -, hbrace⟩ := hopening 0
  have hshorter := hreads.body_shorter
  rw [Cursor.advance_rest, hbrace] at hshorter
  obtain ⟨hat, hsemicolon⟩ := atDeclaration_printed hclosing hreads.begins
  exact .type (w := []) .nil hopening.solid hat hsemicolon hopening hshorter hmembers h

/-! ## Bare declarations -/

/-- A declaration that is nothing but attributes and modifiers ends where an expression may end. -/
theorem ReadsLeaf.ends_of_leadsTo (h : ReadsLeaf c d c') (hleads : LeadsTo c c') :
    EndsExpression [';', '\n', '\r'] c'.rest := by
  obtain ⟨attributes, c₁, modifiers, hattributes, hmodifiers⟩ := hleads
  cases h with
  | other hattributes' hmodifiers' _ hother =>
    obtain ⟨rfl, rfl⟩ := Prod.mk.inj (Except.ok.inj (hattributes.symm.trans hattributes'))
    obtain ⟨rfl, rfl⟩ := Prod.mk.inj (Except.ok.inj (hmodifiers.symm.trans hmodifiers'))
    obtain ⟨text, hscan, -⟩ := readOther_spec hother
    obtain ⟨-, -, -, -, hends, -⟩ := scanExpression_spec hscan
    exact hends
  | cases hattributes' hmodifiers' hlead hcases =>
    obtain ⟨rfl, rfl⟩ := Prod.mk.inj (Except.ok.inj (hattributes.symm.trans hattributes'))
    obtain ⟨rfl, rfl⟩ := Prod.mk.inj (Except.ok.inj (hmodifiers.symm.trans hmodifiers'))
    have := lead_cases_shorter hlead
    have := (reaches_readCases hcases).length_le
    omega

theorem readName?_brace (h : c.next? = some '\x7d') : readName? c = none := by
  obtain ⟨p, rest⟩ := c
  refine readName?_none (fun ch hch => ?_) p
  obtain rfl := Option.some.inj (h.symm.trans hch)
  decide

/-- Such a declaration in front of a closing brace is bare. -/
theorem ReadsLeaf.isBare_of_leadsTo (h : ReadsLeaf c d c') (hat : c.At source)
    (hleads : LeadsTo c c') (hbrace : c'.next? = some '\x7d') : d.isBare source = true := by
  obtain ⟨u, hmoves⟩ := hleads.reaches
  obtain ⟨attributes, c₁, modifiers, hattributes, hmodifiers⟩ := hleads
  have hsoft : SoftHead c'.rest := by
    intro ch hch
    obtain rfl := Option.some.inj (hbrace.symm.trans hch)
    decide
  -- they are read in the same way when the text ends there
  have hcarry : (seaming 0 hsoft atLineEnd_nil).carry c = ⟨c.pos, u⟩ := by
    rw [← List.append_nil u]
    exact seamed_rest hmoves.1
  have hcarry' : (seaming 0 hsoft atLineEnd_nil).carry c' = ⟨c'.pos, []⟩ :=
    seamed_rest (u := []) rfl
  have hin : (seaming 0 hsoft atLineEnd_nil).Inside c' := ⟨⟨[], rfl⟩, fun _ => by rw [hcarry']⟩
  have hleads' : LeadsTo ⟨c.pos, u⟩ ⟨c'.pos, []⟩ := by
    rw [← hcarry, ← hcarry']
    exact ⟨_, _, _,
      Carrier.attributes hattributes (hin.of_reaches (reaches_readModifiers hmodifiers)),
      Carrier.modifiers hmodifiers hin fun after hclass => by
        simp [readName?_brace hbrace] at hclass⟩
  cases h with
  | other _ _ _ hother =>
    obtain ⟨text, -, -, rfl⟩ := readOther_spec hother
    have hslice : slice source c.pos c'.pos = u := by
      have hrest := hmoves.1
      rw [hat.2] at hrest
      rw [hmoves.2]
      exact Expansion.slice_of_drop hrest
    rw [Declaration.isBare]
    dsimp only
    rw [hslice]
    exact hleads'.onlyLeads rfl
  | @cases _ c₂ _ _ _ _ _ hattributes' hmodifiers' hlead _ =>
    obtain ⟨rfl, rfl⟩ := Prod.mk.inj (Except.ok.inj (hattributes.symm.trans hattributes'))
    obtain ⟨rfl, rfl⟩ := Prod.mk.inj (Except.ok.inj (hmodifiers.symm.trans hmodifiers'))
    simp [lead, readName?_brace hbrace] at hlead

/-- In front of a closing brace there are no more declarations. -/
theorem Reads.eq_nil_of_brace (h : Reads limit levels closing c ds c')
    (hbrace : c.next? = some '\x7d') : ds = [] ∧ c' = c := by
  obtain ⟨rest, hrest⟩ := List.head?_eq_some_iff.1 hbrace
  have hnoAttribute := readAttributes_nil (c := c) (by simp [hbrace])
  have hnoName := readName?_brace hbrace
  have hnoModifier := readModifiers_noName hnoName
  have hsolid : skipTrivia c = .ok c := by
    have := skipTrivia_solid (r := c.rest) (by rw [hrest]; exact .of_head (by decide) (by decide))
      c.pos
    exact this
  cases h with
  | done htrivia _ => exact ⟨rfl, Except.ok.inj (htrivia.symm.trans hsolid)⟩
  | semicolon htrivia _ hsemicolon _ =>
    obtain rfl := Except.ok.inj (hsolid.symm.trans htrivia)
    simp [hbrace] at hsemicolon
  | leaf htrivia _ hleaf hshorter _ =>
    obtain rfl := Except.ok.inj (hsolid.symm.trans htrivia)
    cases hleaf with
    | other hattributes hmodifiers _ hother =>
      obtain ⟨-, rfl⟩ := Prod.mk.inj (Except.ok.inj (hnoAttribute.symm.trans hattributes))
      obtain ⟨-, rfl⟩ := Prod.mk.inj (Except.ok.inj (hnoModifier.symm.trans hmodifiers))
      obtain ⟨text, hscan, hpos, -⟩ := readOther_spec hother
      have hends : EndsExpression [';', '\n', '\r'] c.rest := fun ch hch => by
        obtain rfl := Option.some.inj (hbrace.symm.trans hch)
        decide
      have hscan' := scanExpression_text (w := []) .nil hends c.pos
      obtain ⟨-, rfl⟩ := Prod.mk.inj (Except.ok.inj (hscan.symm.trans hscan'))
      exact absurd rfl hpos
    | cases hattributes hmodifiers hlead _ =>
      obtain ⟨-, rfl⟩ := Prod.mk.inj (Except.ok.inj (hnoAttribute.symm.trans hattributes))
      obtain ⟨-, rfl⟩ := Prod.mk.inj (Except.ok.inj (hnoModifier.symm.trans hmodifiers))
      simp [lead, hnoName] at hlead
  | type htrivia _ hopening _ _ _ =>
    obtain rfl := Except.ok.inj (hsolid.symm.trans htrivia)
    rcases hopening.begins with hhead | htoken
    · simp [Cursor.next?] at hbrace hhead
      simp [hbrace] at hhead
    · exact absurd hbrace (htoken.head_ne (by decide) (by decide))

end Swift

namespace Expansion

open Text Swift Cursor

/-! ## Outlines of what is to be expanded -/

/-- The attributes of a type without the first annotation. -/
def unannotated (as : List Attribute) : List Attribute :=
  as.eraseP fun a => lastComponent a.name == annotationName

/-- The attributes that are left of a type. -/
def attributesLeft (new? : Option (List Outline)) (as : List Attribute) : List Attribute :=
  if new?.isSome then unannotated as else as

mutual

/-- The outline of a declaration in which the types for which `added` gives a list have lost their
annotation and have that list behind their members. -/
def outlineWith (added : TypeDecl → Option (List Outline)) : Declaration → Outline
  | .type header members =>
    .type header.kind header.name
      ((attributesLeft (added ⟨header, members⟩) header.attributes).map Attribute.outline)
      header.modifiers header.inheritance
      (outlinesWith added members ++ (added ⟨header, members⟩).getD [])
  | .cases elements _ => .cases (elements.map CaseElement.outline)
  | .other text attributes modifiers _ =>
    .other text (attributes.map Attribute.outline) modifiers

/-- The outlines of a forest in which types are expanded. -/
def outlinesWith (added : TypeDecl → Option (List Outline)) : List Declaration → List Outline
  | [] => []
  | d :: rest => outlineWith added d :: outlinesWith added rest

end

theorem outlineWith_leaf (added : TypeDecl → Option (List Outline)) {c c' : Cursor}
    {d : Declaration} (h : ReadsLeaf c d c') : outlineWith added d = d.outline := by
  rcases h.cases_or_other with ⟨_, _, _, rfl, -⟩ | ⟨_, _, _, _, rfl⟩ <;> rfl

variable {source : List Char} {options : Options} {es : List Edit} {limit : Int} {levels : Nat}
  {closing : Option Char} {c c' c₁ c₂ brace : Cursor} {ds : List Declaration} {os : List Outline}
  {rest : List Char}

/-- What is done to a type: nothing, or its annotation goes and, if there are new members, they come
in front of its closing brace. Its last member must not be bare then. -/
inductive Adds (source : List Char) (options : Options) (t : TypeDecl) :
    Option (List Outline) → Prop
  | kept : editsOf source options t = [] → Adds source options t none
  | removed {a : Attribute} :
      annotation? t = some a → editsOf source options t = [attributeRemoval source a.span] →
      Adds source options t (some [])
  | inserted {a : Attribute} {texts : List (List Char)} {new : List Outline} :
      annotation? t = some a →
      editsOf source options t = [attributeRemoval source a.span,
        memberInsertion source (.of t) texts options.indent.toList] →
      (∀ d ∈ t.members.getLast?, d.isBare source = false) →
      (∀ limit levels rest, Spells limit levels (some '\x7d')
        ((memberInsertion source (.of t) texts options.indent.toList).replacement ++ rest) new
        ('\x7d' :: rest)) →
      Adds source options t (some new)

/-! ## The edits follow each place -/

theorem marked_removal {a : Attribute} {lo hi : Nat} (ha : a.PlacedIn source lo hi) :
    Marked source (attributeRemoval source a.span) := by
  obtain ⟨-, -, arguments, rest, hdrop, -⟩ := ha
  have hle : a.span.start ≤ source.length := by
    rcases Nat.le_total a.span.start source.length with hle | hge
    · exact hle
    · rw [List.drop_eq_nil_of_le hge] at hdrop
      simp at hdrop
  obtain ⟨before, hbefore, -, hback⟩ := lastBoundary_spec hle
  rw [hdrop] at hback
  refine ⟨⟨before, '@', _, hback, hbefore, .inl rfl⟩, ?_⟩
  simp only [attributeRemoval]
  split
  · rename_i hzero
    exact .inl (congrArg Nat.cast hzero)
  · split <;> exact .inr rfl

theorem marked_insertion {t : TypeDecl} {lo brace close : Nat} (hoptions : options.error? = none)
    (ht : t.BracesAt source lo brace close) (texts : List (List Char)) :
    Marked source (memberInsertion source (.of t) texts options.indent.toList) := by
  have hlength := (List.getElem?_eq_some_iff.1 ht.closing).1
  obtain ⟨before, hbefore, -, hback⟩ := lastBoundary_spec (Nat.le_of_lt hlength)
  obtain ⟨hstart, -⟩ := memberInsertion_spec texts ht.body ht.opening ht.closing ht.lt
    (isBlank_indent hoptions)
  rw [List.drop_eq_getElem_cons hlength] at hback
  refine ⟨⟨before, source[close], _, by rw [hstart]; exact hback, hbefore, .inr ?_⟩, .inr ?_⟩
  · exact (List.getElem?_eq_some_iff.1 ht.closing).2
  · simp only [memberInsertion]
    split <;> rfl

theorem marked_editsInPlace {lo hi : Nat} (hoptions : options.error? = none)
    (h : Placed source lo ds hi) :
    ∀ e ∈ editsInPlace (editsOf source options) ds, Marked source e := by
  intro e he
  obtain ⟨t, ht, he⟩ := List.mem_flatMap.1 ((editsInPlace_perm _ ds).mem_iff.2 he)
  obtain ⟨lo', brace, close, hbraces⟩ := h.bracesAt ht
  rcases editsOf_cases source options t with hedits | ⟨a, ha, hedits | ⟨texts, hedits⟩⟩
  · simp [hedits] at he
  · rw [hedits, List.mem_singleton] at he
    rw [he]
    exact marked_removal (hbraces.attributes a ha)
  · rw [hedits, List.mem_cons, List.mem_singleton] at he
    rcases he with rfl | rfl
    · exact marked_removal (hbraces.attributes a ha)
    · exact marked_insertion hoptions hbraces texts

/-- Where edits follow a forest, they follow the edits for it. -/
theorem follows_editsInPlace (hoptions : options.error? = none)
    (h : Reads limit levels closing c ds c') (hc : c.At source) (hes : Follows source es c'.pos) :
    Follows source (editsInPlace (editsOf source options) ds ++ es) c.pos := by
  have hplaced := (h.placed hc).mono (Nat.sub_le _ _ : lastBoundary source c.pos ≤ c.pos)
  have hordered := ordered_editsInPlace hoptions hplaced (boundary_lastBoundary hc.1)
    (h.reaches.at_of hc).1
  refine ⟨hordered.append hes.ordered, fun e he => ?_⟩
  rcases List.mem_append.1 he with he | he
  · exact marked_editsInPlace hoptions hplaced e he
  · exact hes.marked e he

/-! ## One declaration -/

/-- The first of the edits begins at the offset or in front of it. -/
def Entered (es : List Edit) (p : Nat) : Prop := ∃ e ∈ es.head?, e.start ≤ p

theorem Entered.firstStart_le {p : Nat} (h : Entered es p) (source : List Char) :
    firstStart source es ≤ p := by
  obtain ⟨e, he, hle⟩ := h
  obtain ⟨es', rfl⟩ := List.head?_eq_some_iff.1 he
  rw [firstStart]
  omega

theorem eq_nil_or_lt_firstStart {p : Nat} (h : ¬Entered es p) (source : List Char) :
    es = [] ∨ p < firstStart source es := by
  cases es with
  | nil => exact .inl rfl
  | cons e es =>
    refine .inr (Nat.lt_of_not_le fun hle => h ⟨e, rfl, ?_⟩)
    rw [firstStart] at hle
    omega

/-- Layout at the front of a text ends in front of what is solid. -/
theorem layout_prefix {lay tail w r : List Char} (h : lay ++ tail = w ++ r)
    (hlay : IsLayoutText lay) (hr : Solid r) (hne : r ≠ []) :
    ∃ y, w = lay ++ y ∧ tail = y ++ r := by
  rcases List.append_eq_append_iff.1 h with ⟨y, rfl, rfl⟩ | ⟨y, rfl, rfl⟩
  · exact ⟨y, rfl, rfl⟩
  · cases y with
    | nil => exact ⟨[], by simp, by simp⟩
    | cons ch y =>
      have := hlay ch (by simp)
      simp [hr.not_layout] at this

/-- Edits begin in front of an attribute or a closing brace. -/
theorem Follows.next_of_entered (h : Follows source es c.pos) (hc : c.At source)
    (hentered : Entered es c.pos) (hsolid : Solid c.rest) :
    c.next? = some '@' ∨ c.next? = some '\x7d' := by
  have hle := hentered.firstStart_le source
  have hlayout := h.layout hc.1
  obtain ⟨e, he, -⟩ := hentered
  obtain ⟨es', rfl⟩ := List.head?_eq_some_iff.1 he
  obtain ⟨lay, ch, rest, hdrop, hlay, hmark⟩ := (h.marked e List.mem_cons_self).place
  have hmarkSolid : Solid (ch :: rest) := by
    rcases hmark with rfl | rfl <;> exact .of_head (by decide) (by decide)
  have hsplit := h.drop_firstStart hc hle
  rw [firstStart, hdrop] at hsplit
  obtain ⟨y, hy, hrest⟩ := layout_prefix hsplit.symm hlayout hmarkSolid (List.cons_ne_nil _ _)
  cases y with
  | nil =>
    rw [Cursor.next?, hrest]
    exact hmark.imp (congrArg some) (congrArg some)
  | cons d y =>
    rw [hrest] at hsolid
    have := hlay d (by rw [hy]; simp)
    simp [hsolid.not_layout] at this

/-- Edits that follow a later place begin behind what is no layout. -/
theorem Follows.lt_firstStart {p : Nat} {ch : Char} (h : Follows source es p) (hc : c.At source)
    (hnext : c.next? = some ch) (hch : isLayout ch = false) (hlt : c.pos < p)
    (hp : p ≤ source.length) : c.pos < firstStart source es :=
  h.boundary_le (.after (getElem?_of_next? hc hnext) hch) hlt hp

theorem Follows.inside_of_not_entered (h : Follows source es c.pos) (hc : c.At source)
    (hpos : 0 < firstStart source es) (hentered : ¬Entered es c.pos) : (h.seam hpos).Inside c := by
  rcases eq_nil_or_lt_firstStart hentered source with rfl | hlt
  · refine ⟨h.known hpos hc hc.1, fun hseam => ?_⟩
    have hend := h.pos_of_atSeam hc hseam
    rw [h.carry_eq hpos hc hc.1, editedFrom_of_le (Nat.le_of_eq hend.symm)]
    rfl
  · exact h.inside hc hlt

/-- A declaration that holds no others stays where the edits come behind it. They may cut off the
layout at its end. -/
theorem Follows.spellsLeaf {d : Declaration} (hes : Follows source es c₂.pos)
    (hleaf : ReadsLeaf c₁ d c₂) (hsolid : Solid c₁.rest) (hc : c₁.At source)
    (hlt : c₁.pos < firstStart source es) (hbare : Entered es c₂.pos → ¬LeadsTo c₁ c₂) :
    SpellsLeaf (editedFrom source es c₁.pos) d.outline (editedFrom source es c₂.pos) := by
  have hc₂ := (reaches_readsLeaf hleaf).at_of hc
  have hpos := Nat.zero_lt_of_lt hlt
  by_cases hentered : Entered es c₂.pos
  · have hle := hentered.firstStart_le source
    have hbehind := hes.drop_firstStart hc₂ hle
    rw [editedFrom_of_le hle]
    refine hleaf.spells_cut ?_ hsolid (hes.layout hc₂.1) ?_ (hes.atLineEnd hpos) (hbare hentered)
    · rw [← hbehind]
      exact Follows.rest_eq hc (Nat.le_of_lt hlt)
    · rw [← hbehind]
      exact hes.softHead
  · have hin := hes.inside_of_not_entered hc₂ hpos hentered
    have hle : c₂.pos ≤ firstStart source es := by
      rcases eq_nil_or_lt_firstStart hentered source with rfl | hlt₂
      · exact hc₂.1
      · exact Nat.le_of_lt hlt₂
    have := (hleaf.carried _ hin.1 fun _ _ _ => hin).spells
    rwa [hes.carry_eq _ hc (Nat.le_of_lt hlt), hes.carry_eq _ hc₂ hle,
      Declaration.outline_moved] at this

/-- A declaration that holds no others is read up to the edits behind it. -/
theorem Follows.leaf {d : Declaration} (hes : Follows source es c₂.pos)
    (htrivia : skipTrivia c = .ok c₁) (hat : AtDeclaration closing c₁) (hleaf : ReadsLeaf c₁ d c₂)
    (hshorter : c₂.rest.length < c₁.rest.length) (hc : c.At source)
    (hbare : Entered es c₂.pos → ¬LeadsTo c₁ c₂)
    (hrest : Spells limit levels closing (editedFrom source es c₂.pos) os rest) :
    Spells limit levels closing (editedFrom source es c.pos) (d.outline :: os) rest := by
  have hc₁ := (reaches_skipTrivia htrivia).at_of hc
  have hc₂ := (reaches_readsLeaf hleaf).at_of hc₁
  have hpos : c₁.pos < c₂.pos := by
    have := hc₁.pos_add_length
    have := hc₂.pos_add_length
    omega
  obtain ⟨-, -, -, hsolid⟩ := skipTrivia_spec htrivia
  have hlt : c₁.pos < firstStart source es := by
    cases hfirst : c₁.rest with
    | nil => exact absurd hfirst hat.notEnd
    | cons ch r =>
      rw [hfirst] at hsolid
      exact hes.lt_firstStart hc₁ (by rw [Cursor.next?, hfirst]; rfl) hsolid.not_layout hpos hc₂.1
  have hnext := hes.next? hc₁ hlt
  have hspells := hes.spellsLeaf hleaf hsolid hc₁ hlt hbare
  obtain ⟨w, hsplit, hw⟩ := (hes.mono (Nat.le_of_lt hpos) hc₂.1).trivia hc htrivia
  rw [hsplit]
  refine .leaf hw (hes.solid hc₁ hlt hsolid) ?_ ?_ hspells ?_ hrest
  · rw [hnext]
    exact hat.notClosing
  · rw [hnext]
    exact hat.notSemicolon
  · have := firstStart_le hes.ordered
    simp only [editedFrom, List.length_append, List.length_drop, List.length_take]
    omega

variable {kind : TypeKind} {name : String} {as : List Attribute}
  {modifiers inheritance : List String}

/-- What stands before the body of a type stays where the edits come behind it. -/
theorem Follows.opening (hes : Follows source es (brace.advance 1).pos)
    (h : ReadsOpening c kind name as modifiers inheritance brace) (hc : c.At source) :
    SpellsOpening (editedFrom source es c.pos) kind name (as.map Attribute.outline) modifiers
      inheritance (editedFrom source es (brace.advance 1).pos) := by
  obtain ⟨hreaches, hbrace, -⟩ := reaches_readsOpening h
  have hcBrace := hreaches.at_of hc
  have hcBody := (reaches_advance brace 1).at_of hcBrace
  have hnext := pos_advance_one hbrace
  have hlt := hes.lt_firstStart hcBrace hbrace (by decide) (by omega) hcBody.1
  have hle := hreaches.pos_le
  have hpos := Nat.zero_lt_of_lt hlt
  have hcarried := h.carried (hes.seam hpos) (hes.known hpos hcBrace (Nat.le_of_lt hlt))
  have hbrace' : ((hes.seam hpos).carry brace).rest
      = '\x7b' :: editedFrom source es (brace.advance 1).pos := by
    rw [hes.carry_eq hpos hcBrace (Nat.le_of_lt hlt), hnext]
    exact Follows.cons hcBrace hlt hbrace
  have := hcarried.spells hbrace'
  rwa [hes.carry_eq hpos hc (by omega), List.map_map,
    show Attribute.outline ∘ Attribute.moved _ = Attribute.outline from
      funext (Attribute.outline_moved _)] at this

/-- What is removed behind an attribute is layout, which ends in front of what comes next. -/
theorem attributeRemoval_behind {span : Span} (hrest : source.drop span.stop = rest ++ c.rest)
    (hsolid : Solid c.rest) (hne : c.rest ≠ []) :
    ∃ (stop : Nat) (lay y : List Char), (attributeRemoval source span).stop = stop ∧
      source.drop stop = y ++ c.rest ∧ rest = lay ++ y ∧ IsLayoutText lay ∧
      stop = span.stop + lay.length := by
  obtain ⟨blanks, lineBreak, tail, hsplit, hblanks, hbreak, -, -, hlayout⟩ :=
    afterAttribute_spec (source.drop span.stop)
  rw [← List.append_assoc] at hsplit
  obtain ⟨y, hy, htail⟩ := layout_prefix (hsplit.symm.trans hrest) hlayout hsolid hne
  refine ⟨span.stop + (blanks ++ lineBreak).length, blanks ++ lineBreak, y, ?_, ?_, hy, hlayout,
    rfl⟩
  · simp only [attributeRemoval, ← List.drop_drop, List.length_append, hbreak, hblanks]
    omega
  · rw [← List.drop_drop, hsplit, List.drop_left, htail]

/-- Of the trivia behind an attribute, what is left in front of the next thing is trivia. -/
theorem Follows.editedTail_removal {a : Attribute} (hes : Follows source es d.pos)
    (hspan : a.span.stop = c.pos) (hc : c.At source) (htrivia : skipTrivia c = .ok d)
    (hne : d.rest ≠ []) :
    ∃ v, editedTail source (attributeRemoval source a.span :: es)
      = v ++ editedFrom source es d.pos ∧ Trivia v (editedFrom source es d.pos) := by
  have hd := (reaches_skipTrivia htrivia).at_of hc
  obtain ⟨w, hmoves, hw, hsolid⟩ := skipTrivia_spec htrivia
  have hafterSpan : source.drop a.span.stop = w ++ d.rest := by
    rw [hspan, ← hc.2, hmoves.1]
  obtain ⟨stop, lay, y, hstop, hdrop, rfl, hlay, hstopEq⟩ :=
    attributeRemoval_behind hafterSpan hsolid hne
  have hskip : skipTrivia ⟨stop, source.drop stop⟩ = .ok d := by
    have hpos : d.pos = stop + y.length := by
      rw [hmoves.2, hstopEq, hspan, List.length_append, Nat.add_assoc]
    have := skipTrivia_text (hw.drop_layout hlay) hsolid stop
    rwa [← hdrop, ← hpos] at this
  have hle : stop ≤ d.pos := (reaches_skipTrivia hskip).pos_le
  obtain ⟨z, hz, hzTrivia⟩ := hes.trivia ⟨Nat.le_trans hle hd.1, rfl⟩ hskip
  refine ⟨(attributeRemoval source a.span).replacement ++ z, ?_,
    (trivia_of_layout (isLayoutText_attributeRemoval source a.span)).append hzTrivia⟩
  rw [editedTail_cons, hstop, Int.toNat_natCast, List.append_assoc]
  exact congrArg _ hz

theorem unannotated_eq {a : Attribute}
    (ha : as.find? (fun a => lastComponent a.name == annotationName) = some a) :
    ∃ front back, as = front ++ a :: back ∧ unannotated as = front ++ back := by
  obtain ⟨hmatch, front, back, rfl, hfront⟩ := List.find?_eq_some_iff_append.1 ha
  refine ⟨front, back, rfl, ?_⟩
  rw [unannotated, List.eraseP_append_right _ (by simpa using hfront),
    List.eraseP_cons_of_pos (p := fun a : Attribute => lastComponent a.name == annotationName)
      hmatch]

/-- What stands before the body of a type is left when the annotation is taken out. Where that was
the first attribute, there is trivia instead. -/
theorem Follows.opening_detached {a : Attribute}
    (hes : Follows source (attributeRemoval source a.span :: es) c.pos)
    (hbehind : Follows source es (brace.advance 1).pos)
    (h : ReadsOpening c kind name as modifiers inheritance brace) (hc : c.At source)
    (ha : as.find? (fun a => lastComponent a.name == annotationName) = some a) :
    ∃ w t, editedFrom source (attributeRemoval source a.span :: es) c.pos = w ++ t ∧ Trivia w t ∧
      SpellsOpening t kind name ((unannotated as).map Attribute.outline) modifiers
        inheritance (editedFrom source es (brace.advance 1).pos) := by
  obtain ⟨front, back, rfl, hunannotated⟩ := unannotated_eq ha
  obtain ⟨c₁, c₂, after, hattributes, hmodifiers, hlead, hafter⟩ := h
  obtain ⟨d₁, d₂, d₃, hto, hat, hread, htrivia, hback⟩ := readAttributes_split hattributes
  have hopening : ReadsOpening d₃ kind name back modifiers inheritance brace :=
    ⟨c₁, c₂, after, hback, hmodifiers, hlead, hafter⟩
  obtain ⟨arguments, hmovesAttribute, hspan⟩ := moves_readAttribute hat hread
  have hd₁ := hto.reaches.at_of hc
  have hd₂ := hmovesAttribute.reaches.at_of hd₁
  have hd₃ := (reaches_skipTrivia htrivia).at_of hd₂
  have hBody := (reaches_readsOpening hopening).1.trans (reaches_advance brace 1)
  have hspells := hbehind.opening hopening hd₃
  obtain ⟨v, htail, hv⟩ := (hbehind.mono hBody.pos_le (hBody.at_of hd₃).1).editedTail_removal
    (a := a) (by rw [hspan]) hd₂ htrivia
    (List.ne_nil_of_length_pos (Nat.zero_lt_of_lt hopening.body_shorter))
  -- the edit begins in front of the annotation
  have hstart : (attributeRemoval source a.span).start = (lastBoundary source d₁.pos : Nat) := by
    rw [attributeRemoval, hspan]
    rfl
  have hle : firstStart source (attributeRemoval source a.span :: es) ≤ d₁.pos := by
    rw [firstStart, hstart]
    exact Nat.sub_le _ _
  rw [hunannotated]
  by_cases hne : front = []
  · subst hne
    cases hto
    exact ⟨v, _, by rw [editedFrom_of_le hle, htail], hv, hspells⟩
  · have hes₁ : Follows source (attributeRemoval source a.span :: es) d₁.pos := by
      refine ⟨?_, hes.marked⟩
      cases hes.ordered with
      | cons hstart' hstop' _ hlt hrest =>
        exact .cons hstart' hstop' (by omega) hlt hrest
    obtain ⟨hatFirst, hshorter⟩ := hto.shorter hne
    have hlt : c.pos < firstStart source (attributeRemoval source a.span :: es) := by
      refine hes₁.lt_firstStart hc hatFirst (by decide) ?_ hd₁.1
      have := hc.pos_add_length
      have := hd₁.pos_add_length
      omega
    have hrest := Follows.rest_eq hc (Nat.le_of_lt hlt)
    have hsoft := hes₁.softHead
    rw [hes₁.drop_firstStart hd₁ hle] at hrest hsoft
    have hend := hes₁.atLineEnd (Nat.zero_lt_of_lt hlt)
    rw [htail] at hend
    refine ⟨[], _, rfl, .nil, ?_⟩
    rw [editedFrom, htail, List.map_append]
    exact hto.detached hne hrest (hes₁.layout hd₁.1) hsoft hv hspells.solid hend hspells

/-! ## Forests -/

theorem bracesAt_of_opening {close : Cursor} {members : List Declaration}
    (h : ReadsOpening c kind name as modifiers inheritance brace)
    (hmembers : Reads limit levels (some '\x7d') (brace.advance 1) members close)
    (hc : c.At source) :
    TypeDecl.BracesAt source
      ⟨{ kind, name, attributes := as, modifiers, inheritance,
         span := ⟨c.pos, (close.advance 1).pos⟩, body := ⟨brace.pos, (close.advance 1).pos⟩ },
        members⟩ c.pos brace.pos close.pos := by
  obtain ⟨hreaches, hbrace, hbetween⟩ := reaches_readsOpening h
  have hcBrace := hreaches.at_of hc
  have hcClose := hmembers.reaches.at_of ((reaches_advance brace 1).at_of hcBrace)
  have hle := hmembers.reaches.pos_le
  rw [pos_advance_one hbrace] at hle
  exact ⟨by rw [pos_advance_one hmembers.next?], getElem?_of_next? hcBrace hbrace,
    getElem?_of_next? hcClose hmembers.next?, fun a ha => (hbetween a ha).placedIn hc, hle⟩

variable {t : TypeDecl} {new? : Option (List Outline)}

/-- What stands before the body of a type is what it should be. -/
theorem Adds.opening (h : Adds source options t new?)
    (hes : Follows source ((editsOf source options t).take 1 ++ es) c.pos)
    (hbehind : Follows source es (brace.advance 1).pos)
    (hopening : ReadsOpening c kind name t.attributes modifiers inheritance brace)
    (hc : c.At source) :
    ∃ w x, editedFrom source ((editsOf source options t).take 1 ++ es) c.pos = w ++ x ∧
      Trivia w x ∧ SpellsOpening x kind name
        ((attributesLeft new? t.attributes).map Attribute.outline) modifiers inheritance
        (editedFrom source es (brace.advance 1).pos) := by
  have hdetached : ∀ {a : Attribute} {new : List Outline}, annotation? t = some a →
      (editsOf source options t).take 1 = [attributeRemoval source a.span] →
      ∃ w x, editedFrom source ((editsOf source options t).take 1 ++ es) c.pos = w ++ x ∧
        Trivia w x ∧ SpellsOpening x kind name
          ((attributesLeft (some new) t.attributes).map Attribute.outline) modifiers inheritance
          (editedFrom source es (brace.advance 1).pos) := by
    intro a new ha hedits
    rw [hedits] at hes ⊢
    exact hes.opening_detached hbehind hopening hc ha
  cases h with
  | kept hedits =>
    rw [hedits]
    exact ⟨[], _, rfl, .nil, hbehind.opening hopening hc⟩
  | removed ha hedits => exact hdetached ha (by rw [hedits]; rfl)
  | inserted ha hedits => exact hdetached ha (by rw [hedits]; rfl)

theorem Follows.insertion {lo brace : Nat} (hes : Follows source es (c.pos + 1))
    (hoptions : options.error? = none) (ht : t.BracesAt source lo brace c.pos)
    (texts : List (List Char)) :
    Follows source (memberInsertion source (.of t) texts options.indent.toList :: es) c.pos := by
  obtain ⟨hstart, hstop, -⟩ := memberInsertion_spec texts ht.body ht.opening ht.closing ht.lt
    (isBlank_indent hoptions)
  have hle : lastBoundary source c.pos ≤ c.pos := Nat.sub_le _ _
  have hboundary := (Boundary.after ht.closing (by decide)).le_lastBoundary (p := c.pos + 1)
    (Nat.le_refl _) (List.getElem?_eq_some_iff.1 ht.closing).1
  refine ⟨.cons hstart hstop (Nat.le_refl _) (by omega) (hes.ordered.mono hboundary), ?_⟩
  rintro e he
  rcases List.mem_cons.1 he with rfl | he
  · exact marked_insertion hoptions ht texts
  · exact hes.marked e he

theorem editedFrom_insertion {lo brace p : Nat} (hoptions : options.error? = none)
    (ht : t.BracesAt source lo brace p) (texts : List (List Char)) (es : List Edit) :
    editedFrom source (memberInsertion source (.of t) texts options.indent.toList :: es) p
      = (memberInsertion source (.of t) texts options.indent.toList).replacement
        ++ editedFrom source es (p + 1) := by
  obtain ⟨hstart, hstop, -⟩ := memberInsertion_spec texts ht.body ht.opening ht.closing ht.lt
    (isBlank_indent hoptions)
  rw [editedFrom_of_le, editedTail_cons, hstop]
  · rfl
  · rw [firstStart, hstart]
    exact Nat.sub_le _ _

/-- In front of the closing brace of a type come its new members. -/
theorem Adds.closes (h : Adds source options t new?) {lo brace : Nat}
    (hoptions : options.error? = none) (ht : t.BracesAt source lo brace c.pos)
    (hc : c.At source) (hnext : c.next? = some '\x7d') (hes : Follows source es (c.advance 1).pos)
    (limit : Int) (levels : Nat) :
    Follows source ((editsOf source options t).drop 1 ++ es) c.pos ∧
      (Entered ((editsOf source options t).drop 1 ++ es) c.pos →
        ∀ d ∈ t.members.getLast?, d.isBare source = false) ∧
      Spells limit levels (some '\x7d')
        (editedFrom source ((editsOf source options t).drop 1 ++ es) c.pos) (new?.getD [])
        ('\x7d' :: editedFrom source es (c.advance 1).pos) := by
  have hadvance := pos_advance_one hnext
  have hcBehind := (reaches_advance c 1).at_of hc
  have hlt := hes.lt_firstStart hc hnext (by decide) (by omega) hcBehind.1
  -- without new members
  have hnone : Follows source es c.pos ∧ (Entered es c.pos →
      ∀ d ∈ t.members.getLast?, d.isBare source = false) ∧
      Spells limit levels (some '\x7d') (editedFrom source es c.pos) []
        ('\x7d' :: editedFrom source es (c.advance 1).pos) := by
    refine ⟨hes.mono (by omega) hcBehind.1, fun hentered => ?_, ?_⟩
    · have := hentered.firstStart_le source
      omega
    · rw [Follows.cons hc hlt hnext, hadvance]
      exact .done (w := []) .nil (.of_head (by decide) (by decide)) rfl
  cases h with
  | kept hedits =>
    rw [hedits]
    exact hnone
  | removed _ hedits =>
    rw [hedits]
    exact hnone
  | @inserted _ texts new _ hedits hbare hspells =>
    rw [hadvance] at hes ⊢
    rw [hedits, List.drop_succ_cons, List.drop_zero, List.singleton_append,
      editedFrom_insertion hoptions ht]
    exact ⟨hes.insertion hoptions ht texts, fun _ => hbare, hspells limit levels _⟩

/-- **What is read from an edited source.** In front of edits that follow a forest, its declarations
are read with the changes that the edits for it make. -/
theorem spells_edited {added : TypeDecl → Option (List Outline)} (hoptions : options.error? = none)
    (h : Reads limit levels closing c ds c') (hc : c.At source)
    (hadds : ∀ t ∈ types ds, Adds source options t (added t)) (hclosing : ClosesPrinted closing)
    (hes : Follows source es c'.pos)
    (hbare : Entered es c'.pos → ∀ d ∈ ds.getLast?, d.isBare source = false)
    (hrest : Spells limit levels closing (editedFrom source es c'.pos) os rest) :
    Spells limit levels closing
      (editedFrom source (editsInPlace (editsOf source options) ds ++ es) c.pos)
      (outlinesWith added ds ++ os) rest := by
  induction h generalizing es os rest with
  | done htrivia _ =>
    obtain ⟨w, hsplit, hw⟩ := hes.trivia hc htrivia
    rw [editsInPlace, List.nil_append, hsplit]
    exact hrest.trivia hw
  | @semicolon levels closing c c₁ c' ds htrivia _ hsemicolon hreads ih =>
    have hc₁ := (reaches_skipTrivia htrivia).at_of hc
    have hc₂ := (reaches_advance c₁ 1).at_of hc₁
    have hadvance := pos_advance_one hsemicolon
    have hfollows := follows_editsInPlace hoptions hreads hc₂ hes
    obtain ⟨w, hsplit, hw⟩ := (hfollows.mono (by omega) hc₂.1).trivia hc htrivia
    have hlt := hfollows.lt_firstStart hc₁ hsemicolon (by decide) (by omega) hc₂.1
    have hspells := ih hc₂ hadds hclosing hes hbare hrest
    rw [hsplit]
    refine .trivia hw ?_
    rw [Follows.cons hc₁ hlt hsemicolon, ← hadvance]
    refine .semicolon ?_ hspells
    rcases hclosing with rfl | rfl <;> decide
  | @leaf levels closing c c₁ c₂ c' d ds htrivia hat hleaf hshorter hreads ih =>
    have hc₁ := (reaches_skipTrivia htrivia).at_of hc
    have hc₂ := (reaches_readsLeaf hleaf).at_of hc₁
    have hfollows := follows_editsInPlace hoptions hreads hc₂ hes
    obtain ⟨-, -, -, hsolid⟩ := skipTrivia_spec htrivia
    have hedits : editsInPlace (editsOf source options) (d :: ds)
        = editsInPlace (editsOf source options) ds := by
      rcases hleaf.cases_or_other with ⟨_, _, _, rfl, -⟩ | ⟨_, _, _, _, rfl⟩ <;> rfl
    rw [types_cons_leaf hleaf] at hadds
    rw [hedits, outlinesWith, outlineWith_leaf added hleaf, List.cons_append]
    refine hfollows.leaf htrivia hat hleaf hshorter hc (fun hentered hleads => ?_)
      (ih hc₂ hadds hclosing hes (fun h d hd => hbare h d (mem_getLast?_cons hd)) hrest)
    rcases hfollows.next_of_entered hc₂ hentered (hleads.solid hsolid) with hnext | hnext
    · have := hleaf.ends_of_leadsTo hleads '@' hnext
      simp [isClosingBracket] at this
    · obtain ⟨rfl, rfl⟩ := hreads.eq_nil_of_brace hnext
      have := hbare hentered d rfl
      rw [hleaf.isBare_of_leadsTo hc₁ hleads hnext] at this
      simp at this
  | @type levels closing c c₁ brace close c' kind name as modifiers inheritance members ds htrivia
      hat hopening hshorter hmembers hreads ihMembers ih =>
    have hc₁ := (reaches_skipTrivia htrivia).at_of hc
    obtain ⟨-, -, -, hsolid⟩ := skipTrivia_spec htrivia
    have hcBody := ((reaches_readsOpening hopening).1.trans (reaches_advance brace 1)).at_of hc₁
    have hcClose := hmembers.reaches.at_of hcBody
    have hcBehind := (reaches_advance close 1).at_of hcClose
    have hclose := hmembers.next?
    have hbraces := bracesAt_of_opening hopening hmembers hc₁
    rw [types, Declaration.types, List.cons_append] at hadds
    have htype := hadds _ List.mem_cons_self
    have hfollows := follows_editsInPlace hoptions hreads hcBehind hes
    have hspells := ih hcBehind
      (fun t ht => hadds t (List.mem_cons_of_mem _ (List.mem_append_right _ ht))) hclosing hes
      (fun h d hd => hbare h d (mem_getLast?_cons hd)) hrest
    obtain ⟨hfollowsClose, hbareMembers, hspellsClose⟩ :=
      htype.closes hoptions hbraces hcClose hclose hfollows limit levels
    have hspellsMembers := ihMembers hcBody
      (fun t ht => hadds t (List.mem_cons_of_mem _ (List.mem_append_left _ ht))) (.inr rfl)
      hfollowsClose hbareMembers hspellsClose
    have hfollowsBody := follows_editsInPlace hoptions hmembers hcBody hfollowsClose
    -- the edits for the type itself stand around those for its members
    have hfollows₁ := follows_editsInPlace hoptions
      (.type (skipTrivia_solid hsolid c₁.pos) hat hopening hshorter hmembers hreads) hc₁ hes
    simp only [editsInPlace, typeEditsInPlace, List.append_assoc] at hfollows₁ ⊢
    obtain ⟨w, hsplit, hw⟩ := hfollows₁.trivia hc htrivia
    obtain ⟨w', x, hsplit', hw', hopening'⟩ := htype.opening hfollows₁ hfollowsBody hopening hc₁
    rw [hsplit]
    refine .trivia hw ?_
    rw [hsplit']
    exact .trivia hw' (.of_opening hclosing hopening' hspellsMembers hspells)

end Expansion

end LocalizedKeys
