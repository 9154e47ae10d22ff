import LocalizedKeys.Proofs.Cuts

/-!
# The opening of a type without one of its attributes

The attributes of a type are read one by one, each with the trivia behind it. Where one of them is
taken out together with layout around it, the opening is read with the attributes that are left: the
trivia on both sides of it becomes one (`AttributesTo.detached`). If it was the first one, the
opening begins with the next, and there is nothing to show but that what stood behind it is trivia.
-/

namespace LocalizedKeys.Swift

open Text Cursor Expansion

variable {w r x : List Char}

/-! ## Trivia -/

theorem Trivia.append {w' : List Char} (h : Trivia w (w' ++ r)) (h' : Trivia w' r) :
    Trivia (w ++ w') r := by
  generalize htext : w' ++ r = text at h
  induction h with
  | nil => exact h'
  | layout hch _ ih => exact .layout hch (ih htext)
  | line hline hend _ ih =>
    subst htext
    rw [List.cons_append, List.cons_append, List.append_assoc]
    exact .line hline (by rwa [List.append_assoc]) (ih rfl)
  | block hbody _ ih =>
    rw [List.cons_append, List.cons_append, List.append_assoc]
    exact .block hbody (ih htext)

/-- Layout at the front of trivia can be left out. -/
theorem Trivia.drop_layout {u : List Char} (h : Trivia (u ++ w) r) (hu : IsLayoutText u) :
    Trivia w r := by
  induction u with
  | nil => exact h
  | cons ch u ih =>
    obtain ⟨hch, hu⟩ := List.forall_mem_cons.1 hu
    generalize htext : ch :: u ++ w = text at h
    cases h with
    | nil => simp at htext
    | layout _ htail =>
      obtain ⟨rfl, rfl⟩ := List.cons.inj htext
      exact ih htail hu
    | line | block =>
      obtain ⟨rfl, -⟩ := List.cons.inj htext
      exact absurd hch (by decide)

/-! ## Where an attribute ends -/

theorem not_layout_of_nameLength? {cs : List Char} {n : Nat} (h : nameLength? cs = some n) :
    ∀ ch ∈ cs.take n, isLayout ch = false := by
  obtain ⟨name, behind, rfl, rfl, hname, -⟩ := nameLength?_spec h
  rw [List.take_left]
  exact fun ch hch => not_layout_of_isNameChar (hname.all ch hch)

theorem not_layout_of_qualifiedTail (cs : List Char) :
    ∀ ch ∈ cs.take (qualifiedTailLength cs), isLayout ch = false := by
  fun_induction qualifiedTailLength cs with
  | case1 rest n hn ih =>
    rw [show n + 1 + qualifiedTailLength (rest.drop n)
      = (n + qualifiedTailLength (rest.drop n)) + 1 by omega, List.take_succ_cons, List.take_add]
    refine List.forall_mem_cons.2 ⟨by decide, fun ch hch => ?_⟩
    rcases List.mem_append.1 hch with hch | hch
    · exact not_layout_of_nameLength? hn ch hch
    · exact ih ch hch
  | case2 | case3 => simp

theorem not_layout_of_readQualifiedName? {c c' : Cursor} {name : String}
    (h : readQualifiedName? c = some (name, c')) : ∀ ch ∈ name.toList, isLayout ch = false := by
  obtain ⟨n, hn, heq⟩ := Option.map_eq_some_iff.1 h
  obtain ⟨rfl, rfl⟩ := Prod.mk.inj heq
  rw [String.toList_ofList, List.take_add]
  intro ch hch
  rcases List.mem_append.1 hch with hch | hch
  · exact not_layout_of_nameLength? hn ch hch
  · exact not_layout_of_qualifiedTail _ ch hch

/-- Arguments end with the parenthesis that closes them. -/
theorem moves_readArguments {c c' : Cursor} {as : List Argument}
    (h : readArguments c = .ok (as, c')) : ∃ w, c.Moves (w ++ [')']) c' := by
  have hclosed : ∀ {c d : Cursor} {w : List Char}, c.Moves w d → d.next? = some ')' →
      c.Moves (w ++ [')']) (d.advance 1) := by
    intro c d w hmoves hclose
    obtain ⟨rest, hrest⟩ := List.head?_eq_some_iff.1 hclose
    exact hmoves.trans (.cons hrest (.refl _))
  fun_induction readArguments c generalizing as c' with
  | case2 c a c₁ ha hclose =>
    obtain ⟨-, rfl⟩ := Prod.mk.inj (Except.ok.inj h)
    obtain ⟨w, hmoves⟩ := reaches_readArgument ha
    exact ⟨w, hclosed hmoves hclose⟩
  | case5 c a c₁ ha hclose hcomma c₂ htrivia others c₃ hrest ih =>
    obtain ⟨-, rfl⟩ := Prod.mk.inj (Except.ok.inj h)
    obtain ⟨w, hmoves⟩ := (reaches_readArgument ha).trans
      ((reaches_advance c₁ 1).trans (reaches_skipTrivia htrivia))
    obtain ⟨w', hmoves'⟩ := ih hrest
    exact ⟨w ++ w', by rw [List.append_assoc]; exact hmoves.trans hmoves'⟩
  | case1 | case3 | case4 | case6 => simp at h

theorem moves_readArgumentList {c c' : Cursor} {as : List Argument}
    (h : readArgumentList c = .ok (as, c')) : ∃ w, c.Moves (w ++ [')']) c' := by
  unfold readArgumentList at h
  split at h
  · simp at h
  · rename_i c₁ htrivia
    obtain ⟨w, hmoves⟩ := (reaches_advance c 1).trans (reaches_skipTrivia htrivia)
    split at h
    · rename_i hclose
      obtain ⟨-, rfl⟩ := Prod.mk.inj (Except.ok.inj h)
      obtain ⟨rest, hrest⟩ := List.head?_eq_some_iff.1 hclose
      exact ⟨w, hmoves.trans (.cons hrest (.refl _))⟩
    · obtain ⟨w', hmoves'⟩ := moves_readArguments h
      exact ⟨w ++ w', by rw [List.append_assoc]; exact hmoves.trans hmoves'⟩

/-- An attribute does not end with layout. -/
theorem readAttribute_last {c c' : Cursor} {a : Attribute} (hat : c.next? = some '@')
    (h : readAttribute c = .ok (a, c')) :
    ∃ w, c.Moves w c' ∧ ∀ ch ∈ w.getLast?, isLayout ch = false := by
  obtain ⟨rest, hrest⟩ := List.head?_eq_some_iff.1 hat
  unfold readAttribute at h
  split at h
  · simp at h
  · rename_i name c₁ hname
    have hmoves := moves_readQualifiedName? hname
    split at h
    · split at h
      · simp at h
      · rename_i hlist
        obtain ⟨-, rfl⟩ := Prod.mk.inj (Except.ok.inj h)
        obtain ⟨w, hw⟩ := moves_readArgumentList hlist
        refine ⟨_, .cons hrest (hmoves.trans hw), ?_⟩
        rw [← List.append_assoc, ← List.cons_append, List.getLast?_concat]
        exact forall_mem_some_not_layout rfl
    · obtain ⟨-, rfl⟩ := Prod.mk.inj (Except.ok.inj h)
      refine ⟨_, .cons hrest hmoves, fun ch hch => ?_⟩
      rcases List.mem_cons.1 (List.mem_of_getLast? hch) with rfl | hch
      · decide
      · exact not_layout_of_readQualifiedName? hname ch hch

/-! ## Some of the attributes -/

/-- Attributes are read from `c` on, each with the trivia behind it, up to `c'`. -/
inductive AttributesTo : Cursor → List Attribute → Cursor → Prop
  | nil {c : Cursor} : AttributesTo c [] c
  | cons {c c₁ c₂ c' : Cursor} {a : Attribute} {as : List Attribute} :
      c.next? = some '@' → readAttribute c = .ok (a, c₁) → skipTrivia c₁ = .ok c₂ →
      AttributesTo c₂ as c' → AttributesTo c (a :: as) c'

variable {c c' : Cursor} {a : Attribute} {front back : List Attribute}

theorem AttributesTo.reaches (h : AttributesTo c front c') : c.Reaches c' := by
  induction h with
  | nil => exact .refl _
  | cons _ ha htrivia _ ih =>
    exact (reaches_readAttribute ha).trans ((reaches_skipTrivia htrivia).trans ih)

theorem AttributesTo.shorter (h : AttributesTo c front c') (hne : front ≠ []) :
    c.next? = some '@' ∧ c'.rest.length < c.rest.length := by
  cases h with
  | nil => exact absurd rfl hne
  | cons hat ha htrivia hothers =>
    exact ⟨hat, Nat.lt_of_le_of_lt ((reaches_skipTrivia htrivia).trans hothers.reaches).length_le
      (readAttribute_shorter ha)⟩

/-- The attributes in front of one of them, the one, and those behind it. -/
theorem readAttributes_split (h : readAttributes c = .ok (front ++ a :: back, c')) :
    ∃ c₁ c₂ c₃, AttributesTo c front c₁ ∧ c₁.next? = some '@' ∧ readAttribute c₁ = .ok (a, c₂) ∧
      skipTrivia c₂ = .ok c₃ ∧ readAttributes c₃ = .ok (back, c') := by
  generalize has : front ++ a :: back = as at h
  fun_induction readAttributes c generalizing front as c' with
  | case4 c hat b d₁ hb d₂ htrivia others d₃ hrest ih =>
    obtain ⟨rfl, rfl⟩ := Prod.mk.inj (Except.ok.inj h)
    cases front with
    | nil =>
      obtain ⟨rfl, rfl⟩ := List.cons.inj has
      exact ⟨c, d₁, d₂, .nil, hat, hb, htrivia, hrest⟩
    | cons b' front =>
      obtain ⟨rfl, hothers⟩ := List.cons.inj has
      obtain ⟨c₁, c₂, c₃, hfront, hrest'⟩ := ih others hothers hrest
      exact ⟨c₁, c₂, c₃, .cons hat hb htrivia hfront, hrest'⟩
  | case5 =>
    obtain ⟨rfl, -⟩ := Prod.mk.inj (Except.ok.inj h)
    simp at has
  | case1 | case2 | case3 => simp at h

/-! ## Openings -/

variable {kind : TypeKind} {name : String} {as : List AttributeOutline}
  {modifiers inheritance : List String} {rest : List Char}

theorem SpellsOpening.cons_attribute {c₁ c₂ : Cursor} (hat : c.next? = some '@')
    (ha : readAttribute c = .ok (a, c₁)) (htrivia : skipTrivia c₁ = .ok c₂)
    (h : SpellsOpening c₂.rest kind name as modifiers inheritance rest) :
    SpellsOpening c.rest kind name (a.outline :: as) modifiers inheritance rest := by
  intro p
  obtain ⟨b, d₁, hb, houtline, hd₁⟩ := readAttribute_anywhere (d := ⟨p, c.rest⟩) ha rfl
  obtain ⟨d₂, htrivia', hd₂⟩ := skipTrivia_anywhere htrivia hd₁
  obtain ⟨bs, brace, ⟨e₁, e₂, after, hbs, hmodifiers, hlead, hafter⟩, rfl, hbrace⟩ := h d₂.pos
  rw [← hd₂] at hbs
  exact ⟨b :: bs, brace, ⟨e₁, e₂, after, readAttributes_cons hat hb htrivia' hbs, hmodifiers, hlead,
    hafter⟩, by rw [List.map_cons, houtline], hbrace⟩

/-- Attributes are read in front of an opening that comes behind them on a new line, where layout
at the end of the trivia between them is cut off. -/
theorem AttributesTo.detached {u v y t : List Char} (h : AttributesTo c front c')
    (hne : front ≠ []) (hrest : c.rest = u ++ (v ++ c'.rest)) (hv : IsLayoutText v)
    (hr : SoftHead (v ++ c'.rest)) (hy : Trivia y t) (ht : Solid t) (hx : AtLineEnd (y ++ t))
    (hopening : SpellsOpening t kind name as modifiers inheritance rest) :
    SpellsOpening (u ++ (y ++ t)) kind name (front.map Attribute.outline ++ as) modifiers
      inheritance rest := by
  induction h generalizing u with
  | nil => exact absurd rfl hne
  | @cons c c₁ c₂ c' a front hat ha htrivia hfront ih =>
    have hk : (seaming 0 hr hx).Known c := ⟨u, hrest⟩
    have hcarry : (seaming 0 hr hx).carry c = ⟨c.pos, u ++ (y ++ t)⟩ := seamed_rest hrest
    obtain ⟨w, hmoves, hlast⟩ := readAttribute_last hat ha
    have hk₁ := known_behind hv hr hx hk hmoves
      ((reaches_skipTrivia htrivia).trans hfront.reaches) hlast
    have hat' := (Carrier.next? hk (Carrier.not_atSeam hk₁ (readAttribute_shorter ha))).trans hat
    have ha' := Carrier.oneAttribute hat ha hk₁
    have hspells : ∀ {d : Cursor}, skipTrivia ((seaming 0 hr hx).carry c₁) = .ok d →
        SpellsOpening d.rest kind name (front.map Attribute.outline ++ as) modifiers inheritance
          rest → SpellsOpening (u ++ (y ++ t)) kind name
          ((a :: front).map Attribute.outline ++ as) modifiers inheritance rest := by
      intro d hd hbehind
      have := SpellsOpening.cons_attribute hat' ha' hd hbehind
      rwa [hcarry, Attribute.outline_moved] at this
    cases hfront with
    | nil =>
      -- the trivia in front of what was taken out goes on with the trivia behind it
      obtain ⟨z, hz⟩ := hk₁
      have hcarry₁ : (seaming 0 hr hx).carry c₁ = ⟨c₁.pos, z ++ (y ++ t)⟩ := seamed_rest hz
      obtain ⟨w₁, hmoves₁, hw₁, -⟩ := skipTrivia_spec htrivia
      obtain rfl : w₁ = z ++ v := by
        refine List.append_cancel_right (hmoves₁.1.symm.trans ?_)
        rw [hz, List.append_assoc]
      refine hspells (d := ⟨c₁.pos + (z ++ y).length, t⟩) ?_ hopening
      rw [hcarry₁, ← List.append_assoc]
      exact skipTrivia_text ((hw₁.cut hv hx).append hy) ht _
    | @cons _ d₁ d₂ _ b others hat₂ hb htrivia₂ hothers =>
      obtain ⟨arguments, hmoves₂, -⟩ := moves_readAttribute hat₂ hb
      have hkNext := known_advance_of_solid hv hr hx hk₁ (reaches_skipTrivia htrivia) hat₂
        (by decide) (hmoves₂.tail.reaches.trans
          ((reaches_skipTrivia htrivia₂).trans hothers.reaches))
      have hin := Carrier.Inside.of_advance hkNext hat₂
      obtain ⟨z, hz⟩ := hin.1
      have hcarry₂ : (seaming 0 hr hx).carry c₂ = ⟨c₂.pos, z ++ (y ++ t)⟩ := seamed_rest hz
      refine hspells (Carrier.trivia htrivia hin) ?_
      rw [hcarry₂]
      exact ih (List.cons_ne_nil _ _) hz hr

end LocalizedKeys.Swift
