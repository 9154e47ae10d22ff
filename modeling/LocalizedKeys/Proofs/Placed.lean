import LocalizedKeys.Proofs.Reach

/-!
# The places of a tree

The spans of a tree that was read from a source lie in it in the order of the declarations, one
inside the other: between the start of a type and its opening brace are its attributes, between
the braces its members, and behind the closing brace what comes after the type. `Placed` says so,
and which characters stand at the places that matter; `Reads.placed` establishes it for every
derivation.
-/

namespace LocalizedKeys.Swift

open Cursor

/-- The character at the place of a cursor. -/
theorem getElem?_of_next? {source : List Char} {c : Cursor} {ch : Char} (hc : c.At source)
    (h : c.next? = some ch) : source[c.pos]? = some ch := by
  rw [Cursor.next?, hc.2, List.head?_drop] at h
  exact h

/-- The attribute stands in the source between two offsets, from its at sign on. -/
def Attribute.PlacedIn (source : List Char) (lo hi : Nat) (a : Attribute) : Prop :=
  lo ≤ a.span.start ∧ a.span.stop ≤ hi ∧
    ∃ arguments rest, source.drop a.span.start = '@' :: (a.name.toList ++ arguments) ++ rest ∧
      a.span.stop = a.span.start + ('@' :: (a.name.toList ++ arguments)).length

theorem Attribute.Between.placedIn {source : List Char} {c c' : Cursor} {a : Attribute}
    (h : a.Between c c') (hc : c.At source) : a.PlacedIn source c.pos c'.pos := by
  obtain ⟨c₁, c₂, arguments, h₁, hmoves, h₂, hspan⟩ := h
  rw [PlacedIn, hspan]
  refine ⟨h₁.pos_le, h₂.pos_le, arguments, c₂.rest, ?_, hmoves.2⟩
  rw [← (h₁.at_of hc).2, hmoves.1]

/-- The declarations lie in the source between two offsets, in their order. -/
inductive Placed (source : List Char) : Nat → List Declaration → Nat → Prop
  | nil {lo hi : Nat} : lo ≤ hi → Placed source lo [] hi
  | cases {lo hi : Nat} {elements : List CaseElement} {span : Span} {ds : List Declaration} :
      Placed source lo ds hi → Placed source lo (.cases elements span :: ds) hi
  | other {lo hi : Nat} {text : String} {attributes : List Attribute} {modifiers : List String}
      {span : Span} {ds : List Declaration} :
      Placed source lo ds hi → Placed source lo (.other text attributes modifiers span :: ds) hi
  | type {lo hi brace close : Nat} {header : TypeHeader} {members ds : List Declaration} :
      header.body = ⟨brace, close + 1⟩ →
      lo ≤ brace →
      (∀ a ∈ header.attributes, a.PlacedIn source lo brace) →
      source[brace]? = some '\x7b' →
      source[close]? = some '\x7d' →
      Placed source (brace + 1) members close →
      Placed source (close + 1) ds hi →
      Placed source lo (.type header members :: ds) hi

theorem Placed.mono {source : List Char} {lo lo' hi : Nat} {ds : List Declaration}
    (h : Placed source lo ds hi) (hlo : lo' ≤ lo) : Placed source lo' ds hi := by
  induction h with
  | nil hle => exact .nil (Nat.le_trans hlo hle)
  | cases _ ih => exact .cases (ih hlo)
  | other _ ih => exact .other (ih hlo)
  | type hbody hbrace hattributes hopen hclose hmembers hds _ _ =>
    refine .type hbody (Nat.le_trans hlo hbrace) (fun a ha => ?_) hopen hclose hmembers hds
    obtain ⟨h₁, h₂, h₃⟩ := hattributes a ha
    exact ⟨Nat.le_trans hlo h₁, h₂, h₃⟩

theorem Placed.mono_hi {source : List Char} {lo hi hi' : Nat} {ds : List Declaration}
    (h : Placed source lo ds hi) (hhi : hi ≤ hi') : Placed source lo ds hi' := by
  induction h with
  | nil hle => exact .nil (Nat.le_trans hle hhi)
  | cases _ ih => exact .cases (ih hhi)
  | other _ ih => exact .other (ih hhi)
  | type hbody hbrace hattributes hopen hclose hmembers _ _ ih =>
    exact .type hbody hbrace hattributes hopen hclose hmembers (ih hhi)

/-- A declaration that holds no others is a case declaration or has only a text. -/
theorem ReadsLeaf.cases_or_other {c c' : Cursor} {d : Declaration} (h : ReadsLeaf c d c') :
    (∃ elements span after, d = .cases elements span ∧
        readCaseElements after = .ok (elements, c')) ∨
      ∃ text attributes modifiers span, d = .other text attributes modifiers span := by
  cases h with
  | other _ _ _ hother =>
    unfold readOther at hother
    split at hother
    · simp at hother
    · split at hother
      · simp at hother
      · obtain ⟨rfl, -⟩ := Prod.mk.inj (Except.ok.inj hother)
        exact .inr ⟨_, _, _, _, rfl⟩
  | cases _ _ _ hcases =>
    unfold readCases at hcases
    split at hcases
    · simp at hcases
    · rename_i helements
      obtain ⟨rfl, rfl⟩ := Prod.mk.inj (Except.ok.inj hcases)
      exact .inl ⟨_, _, _, rfl, helements⟩

theorem types_cons_leaf {c c' : Cursor} {d : Declaration} (h : ReadsLeaf c d c') (ds : List Declaration) :
    types (d :: ds) = types ds := by
  rcases h.cases_or_other with ⟨_, _, _, rfl, -⟩ | ⟨_, _, _, _, rfl⟩ <;>
    simp [types, Declaration.types]

theorem placed_leaf {source : List Char} {lo hi : Nat} {c c' : Cursor} {d : Declaration}
    {ds : List Declaration} (hleaf : ReadsLeaf c d c') (h : Placed source lo ds hi) :
    Placed source lo (d :: ds) hi := by
  rcases hleaf.cases_or_other with ⟨_, _, _, rfl, -⟩ | ⟨_, _, _, _, rfl⟩
  · exact .cases h
  · exact .other h

/-- **What is read from a source is placed in it.** -/
theorem Reads.placed {source : List Char} {limit : Int} {levels : Nat} {closing : Option Char}
    {c c' : Cursor} {ds : List Declaration} (h : Reads limit levels closing c ds c')
    (hc : c.At source) : Placed source c.pos ds c'.pos := by
  induction h with
  | done htrivia _ => exact .nil (reaches_skipTrivia htrivia).pos_le
  | semicolon htrivia _ _ _ ih =>
    have h₁ := (reaches_skipTrivia htrivia).trans (reaches_advance _ 1)
    exact (ih (h₁.at_of hc)).mono h₁.pos_le
  | leaf htrivia _ hleaf _ _ ih =>
    have h₁ := (reaches_skipTrivia htrivia).trans (reaches_readsLeaf hleaf)
    exact placed_leaf hleaf ((ih (h₁.at_of hc)).mono h₁.pos_le)
  | @type levels closing c c₁ brace close c' _ _ _ _ _ _ _ htrivia _ hopening _ hmembers _
      ihMembers ih =>
    have h₁ := reaches_skipTrivia htrivia
    obtain ⟨h₂, hbrace, hattributes⟩ := reaches_readsOpening hopening
    have hat₁ := h₁.at_of hc
    have hatBrace := h₂.at_of hat₁
    have hatMembers := (reaches_advance brace 1).at_of hatBrace
    have hatClose := hmembers.reaches.at_of hatMembers
    have hatRest := (reaches_advance close 1).at_of hatClose
    have hclose := hmembers.next?
    have ihMembers := ihMembers hatMembers
    have ih := ih hatRest
    rw [pos_advance_one hbrace] at ihMembers
    rw [pos_advance_one hclose] at ih ⊢
    refine .type rfl (Nat.le_trans h₁.pos_le h₂.pos_le) (fun a ha => ?_)
      (getElem?_of_next? hatBrace hbrace) (getElem?_of_next? hatClose hclose) ihMembers ih
    obtain ⟨h₃, h₄, h₅⟩ := (hattributes a ha).placedIn hat₁
    exact ⟨Nat.le_trans h₁.pos_le h₃, h₄, h₅⟩

/-! ## The parts of declarations -/

theorem forall_readCaseElements {P : CaseElement → Prop}
    (hone : ∀ {c c' : Cursor} {e : CaseElement}, readCaseElement c = .ok (e, c') → P e)
    {c c' : Cursor} {elements : List CaseElement} (h : readCaseElements c = .ok (elements, c')) :
    ∀ e ∈ elements, P e := by
  fun_induction readCaseElements c generalizing elements c' with
  | case3 c e c₁ he hcomma others c₂ hrest ih =>
    obtain ⟨rfl, -⟩ := Prod.mk.inj (Except.ok.inj h)
    intro x hx
    rcases List.mem_cons.1 hx with rfl | hx
    · exact hone he
    · exact ih hrest x hx
  | case4 c e c₁ he hcomma =>
    obtain ⟨rfl, -⟩ := Prod.mk.inj (Except.ok.inj h)
    intro x hx
    rw [List.mem_singleton.1 hx]
    exact hone he
  | case1 | case2 => simp at h

theorem forall_readArguments {P : Argument → Prop}
    (hone : ∀ {c c' : Cursor} {a : Argument}, readArgument c = .ok (a, c') → P a)
    {c c' : Cursor} {arguments : List Argument} (h : readArguments c = .ok (arguments, c')) :
    ∀ a ∈ arguments, P a := by
  fun_induction readArguments c generalizing arguments c' with
  | case2 c a c₁ ha hclose =>
    obtain ⟨rfl, -⟩ := Prod.mk.inj (Except.ok.inj h)
    intro x hx
    rw [List.mem_singleton.1 hx]
    exact hone ha
  | case5 c a c₁ ha hclose hcomma c₂ htrivia others c₃ hrest ih =>
    obtain ⟨rfl, -⟩ := Prod.mk.inj (Except.ok.inj h)
    intro x hx
    rcases List.mem_cons.1 hx with rfl | hx
    · exact hone ha
    · exact ih hrest x hx
  | case1 | case3 | case4 | case6 => simp at h

theorem forall_readAttribute {P : Argument → Prop}
    (hone : ∀ {c c' : Cursor} {a : Argument}, readArgument c = .ok (a, c') → P a)
    {c c' : Cursor} {a : Attribute} (h : readAttribute c = .ok (a, c')) :
    ∀ arguments ∈ a.arguments, ∀ argument ∈ arguments, P argument := by
  unfold readAttribute at h
  split at h
  · simp at h
  · split at h
    · split at h
      · simp at h
      · rename_i hlist
        obtain ⟨rfl, -⟩ := Prod.mk.inj (Except.ok.inj h)
        intro arguments harguments
        obtain rfl := Option.some.inj harguments
        unfold readArgumentList at hlist
        split at hlist
        · simp at hlist
        · split at hlist
          · obtain ⟨rfl, -⟩ := Prod.mk.inj (Except.ok.inj hlist)
            simp
          · exact forall_readArguments hone hlist
    · obtain ⟨rfl, -⟩ := Prod.mk.inj (Except.ok.inj h)
      simp

theorem forall_readAttributes {P : Argument → Prop}
    (hone : ∀ {c c' : Cursor} {a : Argument}, readArgument c = .ok (a, c') → P a)
    {c c' : Cursor} {as : List Attribute} (h : readAttributes c = .ok (as, c')) :
    ∀ a ∈ as, ∀ arguments ∈ a.arguments, ∀ argument ∈ arguments, P argument := by
  fun_induction readAttributes c generalizing as c' with
  | case4 c hat a c₁ ha c₂ htrivia others c₃ hrest ih =>
    obtain ⟨rfl, -⟩ := Prod.mk.inj (Except.ok.inj h)
    intro x hx
    rcases List.mem_cons.1 hx with rfl | hx
    · exact forall_readAttribute hone ha
    · exact ih hrest x hx
  | case5 =>
    obtain ⟨rfl, -⟩ := Prod.mk.inj (Except.ok.inj h)
    simp
  | case1 | case2 | case3 => simp at h

/-- What holds of every argument of an attribute that can be read holds of those in a forest. -/
theorem Reads.forall_arguments {P : Argument → Prop}
    (hone : ∀ {c c' : Cursor} {a : Argument}, readArgument c = .ok (a, c') → P a)
    {limit : Int} {levels : Nat} {closing : Option Char} {c c' : Cursor} {ds : List Declaration}
    (h : Reads limit levels closing c ds c') :
    ∀ t ∈ types ds, ∀ a ∈ t.attributes, ∀ arguments ∈ a.arguments, ∀ argument ∈ arguments,
      P argument := by
  induction h with
  | done _ _ => simp [types]
  | semicolon _ _ _ _ ih => exact ih
  | leaf _ _ hleaf _ _ ih =>
    intro t ht
    refine ih t ?_
    rcases hleaf.cases_or_other with ⟨_, _, _, rfl, -⟩ | ⟨_, _, _, _, rfl⟩ <;>
      simpa [types, Declaration.types] using ht
  | type _ _ hopening _ _ _ ihMembers ih =>
    intro t ht
    rw [types, Declaration.types, List.cons_append, List.mem_cons, List.mem_append] at ht
    rcases ht with rfl | ht | ht
    · obtain ⟨_, _, _, hattributes, -⟩ := hopening
      exact forall_readAttributes hone hattributes
    · exact ihMembers t ht
    · exact ih t ht

/-- What holds of every case that can be read holds of those of a forest and those inside its
types. -/
theorem Reads.forall_cases {P : CaseElement → Prop}
    (hone : ∀ {c c' : Cursor} {e : CaseElement}, readCaseElement c = .ok (e, c') → P e)
    {limit : Int} {levels : Nat} {closing : Option Char} {c c' : Cursor} {ds : List Declaration}
    (h : Reads limit levels closing c ds c') :
    (∀ elements span, .cases elements span ∈ ds → ∀ e ∈ elements, P e) ∧
      ∀ t ∈ types ds, ∀ e ∈ t.caseElements, P e := by
  induction h with
  | done _ _ => simp [types]
  | semicolon _ _ _ _ ih => exact ih
  | leaf _ _ hleaf _ _ ih =>
    refine ⟨fun elements span hmem => ?_, fun t ht => ?_⟩
    · rcases List.mem_cons.1 hmem with heq | hmem
      · rcases hleaf.cases_or_other with ⟨_, _, _, rfl, helements⟩ | ⟨_, _, _, _, rfl⟩
        · obtain ⟨rfl, -⟩ := Declaration.cases.inj heq
          exact forall_readCaseElements hone helements
        · simp at heq
      · exact ih.1 elements span hmem
    · refine ih.2 t ?_
      rcases hleaf.cases_or_other with ⟨_, _, _, rfl, -⟩ | ⟨_, _, _, _, rfl⟩ <;>
        simpa [types, Declaration.types] using ht
  | type _ _ _ _ _ _ ihMembers ih =>
    refine ⟨fun elements span hmem => ?_, fun t ht => ?_⟩
    · rcases List.mem_cons.1 hmem with heq | hmem
      · simp at heq
      · exact ih.1 elements span hmem
    · rw [types, Declaration.types, List.cons_append, List.mem_cons, List.mem_append] at ht
      rcases ht with rfl | ht | ht
      · intro e he
        obtain ⟨d, hd, hed⟩ := List.mem_flatMap.1 he
        cases d with
        | cases elements span => exact ihMembers.1 elements span hd e hed
        | type header members => simp at hed
        | other text attributes modifiers span => simp at hed
      · exact ihMembers.2 t ht
      · exact ih.2 t ht

theorem isName_readCaseElement {c c' : Cursor} {e : CaseElement}
    (h : readCaseElement c = .ok (e, c')) : IsName e.name.toList := by
  obtain ⟨_, _, _, _, _, _, _, hname, _, _, _, rfl⟩ := readCaseElement_spec h
  obtain ⟨n, _, hn, rfl⟩ := readName?_spec hname
  rw [String.toList_ofList]
  exact hn

theorem reads_of_readSource {limits : Limits} {source : List Char} {ds : List Declaration}
    (h : readSource limits source = .ok ds) :
    ∃ c', Reads limits.maxNestingDepth limits.maxNestingDepth.toNat none (.start source) ds c' :=
  (readSource_eq_ok.1 h).2

theorem placed_of_readSource {limits : Limits} {source : List Char} {ds : List Declaration}
    (h : readSource limits source = .ok ds) : Placed source 0 ds source.length := by
  obtain ⟨c', hreads⟩ := reads_of_readSource h
  have hat : (Cursor.start source).At source := ⟨Nat.zero_le _, rfl⟩
  have hplaced := hreads.placed hat
  have hend := (hreads.reaches.at_of hat).pos_add_length
  exact hplaced.mono_hi (by omega)

end LocalizedKeys.Swift
