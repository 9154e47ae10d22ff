import LocalizedKeys.Proofs.Balance
import LocalizedKeys.Proofs.Moved
import LocalizedKeys.Proofs.Printed

/-!
# Generic clauses

A clause of generic parameters behind the name of a type is passed from its opening to its closing
angle bracket, by counting these two characters and nothing else. So a clause whose brackets are
balanced, character by character (`GenericClause`), may be put behind the name of any type of a
source without a change to the tree that is read (`readSource_insert_generics`).

What stands in front of the name is read alike with and without the clause (`replacing`), and what
comes after the clause is read alike further on (`moving`).
-/

namespace LocalizedKeys.Swift

open Text Cursor

variable {c c' : Cursor}

/-! ## Balanced clauses -/

/-- Angle brackets that are balanced, whatever stands between them. -/
inductive Angles : List Char → Prop
  | nil : Angles []
  | other {ch : Char} {cs : List Char} : ch ≠ '<' → ch ≠ '>' → Angles cs → Angles (ch :: cs)
  | nested {inner cs : List Char} : Angles inner → Angles cs →
      Angles ('<' :: (inner ++ '>' :: cs))

/-- A clause of generic parameters: one pair of angle brackets and what stands in it. -/
def GenericClause (clause : List Char) : Prop :=
  ∃ inner, Angles inner ∧ clause = '<' :: (inner ++ ['>'])

theorem Angles.append {cs ds : List Char} (h : Angles cs) (hds : Angles ds) :
    Angles (cs ++ ds) := by
  induction h with
  | nil => exact hds
  | other hopen hclose _ ih => exact .other hopen hclose ih
  | nested hinner _ _ ih =>
    rw [List.cons_append, List.append_assoc, List.cons_append]
    exact .nested hinner ih

theorem angles_of_all {cs : List Char} (h : ∀ ch ∈ cs, ch ≠ '<' ∧ ch ≠ '>') : Angles cs := by
  induction cs with
  | nil => exact .nil
  | cons ch cs ih =>
    obtain ⟨hopen, hclose⟩ := h ch List.mem_cons_self
    exact .other hopen hclose (ih fun ch hch => h ch (List.mem_cons_of_mem _ hch))

theorem Angles.genericLength? {cs : List Char} (h : Angles cs) (depth passed : Nat)
    (r : List Char) :
    genericLength? (depth + 1) passed (cs ++ r)
      = Swift.genericLength? (depth + 1) (passed + cs.length) r := by
  induction h generalizing depth passed r with
  | nil => rfl
  | other hopen hclose _ ih =>
    rw [List.cons_append, Swift.genericLength?, if_neg hopen, if_neg hclose, ih, List.length_cons,
      Nat.add_assoc, Nat.add_comm 1]
  | @nested inner cs _ _ ihInner ih =>
    rw [List.cons_append, Swift.genericLength?, if_pos rfl, List.append_assoc, ihInner,
      List.cons_append, Swift.genericLength?, if_neg (by decide), if_pos rfl, if_neg (by omega)]
    rw [Nat.add_sub_cancel, ih]
    congr 1
    simp only [List.length_cons, List.length_append]
    omega

theorem GenericClause.genericLength? {clause : List Char} (h : GenericClause clause)
    (r : List Char) : genericLength? 0 0 (clause ++ r) = some clause.length := by
  obtain ⟨inner, hinner, rfl⟩ := h
  rw [List.cons_append, Swift.genericLength?, if_pos rfl, List.append_assoc, hinner.genericLength?,
    List.singleton_append, Swift.genericLength?, if_neg (by decide), if_pos rfl, if_pos rfl]
  simp only [List.length_cons, List.length_append, List.length_nil]
  congr 1
  omega

/-- A clause is passed as a whole. -/
theorem GenericClause.skipGenerics {clause : List Char} (h : GenericClause clause) (p : Nat)
    (r : List Char) : skipGenerics ⟨p, clause ++ r⟩ = .ok ⟨p + clause.length, r⟩ := by
  have hopen : (⟨p, clause ++ r⟩ : Cursor).next? = some '<' := by
    obtain ⟨inner, -, rfl⟩ := h
    rfl
  rw [Swift.skipGenerics, if_pos hopen]
  simp only [h.genericLength?, advance_append]

/-! ## Another text behind a word -/

/-- A name that begins in `cs` ends in it. -/
def EndsName (cs : List Char) : Prop := ∃ x ∈ cs.tail, isNamePart x = false

theorem EndsName.cons {cs : List Char} (h : EndsName cs) (ch : Char) : EndsName (ch :: cs) := by
  obtain ⟨x, hx, hpart⟩ := h
  exact ⟨x, List.mem_of_mem_tail hx, hpart⟩

theorem EndsName.append {cs : List Char} (h : EndsName cs) (u : List Char) :
    EndsName (u ++ cs) := by
  induction u with
  | nil => exact h
  | cons ch u ih => exact ih.cons ch

/-- What is passed of a class of characters ends in front of one that is none of it. -/
theorem takeWhile_append_of_mem {p : Char → Bool} {cs : List Char} {x : Char} (hx : x ∈ cs)
    (hp : p x = false) (r : List Char) :
    (cs ++ r).takeWhile p = cs.takeWhile p ∧ (cs.takeWhile p).length < cs.length := by
  induction cs with
  | nil => simp at hx
  | cons ch cs ih =>
    rw [List.cons_append, List.takeWhile_cons, List.takeWhile_cons]
    cases hch : p ch with
    | false => simp
    | true =>
      have hmem : x ∈ cs := by
        rcases List.mem_cons.1 hx with rfl | hmem
        · simp [hp] at hch
        · exact hmem
      obtain ⟨htake, hlt⟩ := ih hmem
      simp only [if_true, htake, List.length_cons]
      exact ⟨trivial, by omega⟩

theorem EndsName.plainNameLength? {cs : List Char} (h : EndsName cs) (r : List Char) :
    plainNameLength? (cs ++ r) = plainNameLength? cs ∧
      ∀ n, Swift.plainNameLength? cs = some n → n < cs.length := by
  obtain ⟨x, hx, hpart⟩ := h
  cases cs with
  | nil => simp at hx
  | cons ch cs =>
    rw [List.tail_cons] at hx
    obtain ⟨htake, hlt⟩ := takeWhile_append_of_mem hx hpart r
    refine ⟨by rw [List.cons_append, Swift.plainNameLength?, Swift.plainNameLength?, htake], ?_⟩
    intro n hn
    simp only [Swift.plainNameLength?, Option.ite_none_right_eq_some, Option.some.injEq] at hn
    simp only [List.length_cons]
    omega

theorem EndsName.nameLength? {cs : List Char} (h : EndsName cs)
    (hescaped : cs.head? = some backtick → EndsName cs.tail) (r : List Char) :
    nameLength? (cs ++ r) = nameLength? cs := by
  cases cs with
  | nil =>
    obtain ⟨x, hx, -⟩ := h
    simp at hx
  | cons ch cs =>
    rw [List.cons_append, Swift.nameLength?, Swift.nameLength?, ← List.cons_append,
      (h.plainNameLength? r).1]
    by_cases hch : ch = backtick
    · obtain ⟨hlength, hlt⟩ := (hescaped (by rw [hch]; rfl)).plainNameLength? r
      rw [if_pos hch, if_pos hch]
      rw [List.tail_cons] at hlength hlt
      rw [hlength]
      cases hn : Swift.plainNameLength? cs with
      | none => rfl
      | some n =>
        dsimp only
        rw [List.head?_drop, List.head?_drop, List.getElem?_append_left (hlt n hn)]
    · rw [if_neg hch, if_neg hch]

/-- A word and what separates it from the name behind it. -/
structure Headed (b : List Char) : Prop where
  starts : ∀ ch ∈ b.head?, isNameStart ch = true
  endsName : EndsName b

variable {b x₁ x₂ : List Char}

theorem Headed.exists_cons (hb : Headed b) :
    ∃ ch d b', b = ch :: d :: b' ∧ isNameStart ch = true := by
  obtain ⟨x, hx, -⟩ := hb.endsName
  match b, hb.starts, hx with
  | ch :: d :: b', hstarts, _ => exact ⟨ch, d, b', rfl, hstarts ch rfl⟩

theorem Headed.firm (hb : Headed b) (r : List Char) : Firm (b ++ r) := by
  obtain ⟨ch, d, b', rfl, hch⟩ := hb.exists_cons
  refine .cons (fun hmem => ?_) _
  have hall : ∀ ch ∈ ['"', '#', '/', '*'], isNameStart ch = false := by decide
  simp [hall ch hmem] at hch

theorem Headed.not_atLineEnd (hb : Headed b) (r : List Char) : ¬AtLineEnd (b ++ r) := by
  obtain ⟨ch, d, b', rfl, hch⟩ := hb.exists_cons
  intro h
  have := isNamePart_of_isSoft (isSoft_of_isLayout (isLayout_of_isLineEnd (h ch rfl)))
  simp [isNamePart_of_isNameStart hch] at this

theorem replaced_rest {u : List Char} (h : c.rest = u ++ (b ++ x₁)) :
    seamed 0 x₁ x₂ c = ⟨c.pos, u ++ (b ++ x₂)⟩ := by
  rw [← List.append_assoc] at h ⊢
  exact seamed_rest h

theorem Headed.head?_append (hb : Headed b) (u x x' : List Char) :
    (u ++ (b ++ x)).head? = (u ++ (b ++ x')).head? := by
  obtain ⟨ch, d, b', rfl, -⟩ := hb.exists_cons
  cases u <;> rfl

theorem Headed.nameLength? (hb : Headed b) (u x : List Char) :
    nameLength? (u ++ (b ++ x)) = nameLength? (u ++ b) := by
  rw [← List.append_assoc]
  refine (hb.endsName.append u).nameLength? ?_ x
  intro hescaped
  cases u with
  | nil =>
    have := isNamePart_of_isNameStart (hb.starts backtick hescaped)
    simp [isNamePart_backtick] at this
  | cons ch u => exact hb.endsName.append u

/-- What stands in front of the word, and the word itself, does not depend on the text behind it. -/
def replacing (hb : Headed b) (x₁ x₂ : List Char) : Carrier where
  offset := 0
  carry := seamed 0 x₁ x₂
  Known c := ∃ u, c.rest = u ++ (b ++ x₁)
  AtSeam _ := False
  carry_pos _ := rfl
  known_of_reaches := by
    rintro c c' ⟨u, hu⟩ ⟨w, hmoves⟩
    exact ⟨w ++ u, by rw [hmoves.1, hu, List.append_assoc]⟩
  known_advance := by
    rintro c ch ⟨u, hu⟩ hnext hstart _
    cases u with
    | nil =>
      obtain ⟨ch', d, b', rfl, hch⟩ := hb.exists_cons
      rw [Cursor.next?, hu] at hnext
      obtain rfl := Option.some.inj hnext
      simp [hch] at hstart
    | cons ch' u => exact ⟨u, by rw [advance_rest, hu]; rfl⟩
  moves := by
    rintro c c' w hmoves ⟨u, hu⟩
    have hc : c.rest = (w ++ u) ++ (b ++ x₁) := by rw [hmoves.1, hu, List.append_assoc]
    rw [replaced_rest hc, replaced_rest hu]
    exact ⟨List.append_assoc .., hmoves.2⟩
  seam_last h := h.elim
  seam_soft h := h.elim
  atLineEnd h := h.elim
  cons := by
    rintro c ⟨u, hu⟩ -
    rw [replaced_rest hu, hu]
    cases u with
    | nil =>
      obtain ⟨ch, d, b', rfl, -⟩ := hb.exists_cons
      exact ⟨ch, _, _, rfl, rfl, fun _ _ => Iff.rfl⟩
    | cons ch u =>
      refine ⟨ch, u ++ (b ++ x₁), u ++ (b ++ x₂), rfl, rfl, fun _ _ => ?_⟩
      rw [hb.head?_append u x₁ x₂]
  sameName := by
    rintro c ⟨u, hu⟩
    rw [replaced_rest hu, readName?, readName?, Option.map_map, Option.map_map, hu,
      hb.nameLength?, hb.nameLength?]
    cases hn : Swift.nameLength? (u ++ b) with
    | none => rfl
    | some n =>
      have hle := (nameLength?_pos hn).2
      simp only [Option.map_some, Function.comp, ← List.append_assoc,
        List.take_append_of_le_length hle]
  passes := by
    rintro fs fs' w n c hpasses ⟨u, hu⟩
    rw [replaced_rest hu]
    rw [hu] at hpasses
    exact hpasses.seam (.inr ⟨(hb.firm x₁).quiet, hb.firm x₂⟩)
      (.inr (.inr fun h => absurd h (hb.not_atLineEnd x₁)))

/-! ## A change in the opening of a type -/

/-- The declaration of every type of a forest is passed. -/
theorem Reads.reaches_types {limit : Int} {levels : Nat} {closing : Option Char}
    {ds : List Declaration} (h : Reads limit levels closing c ds c') {t : TypeDecl}
    (ht : t ∈ types ds) : ∃ s, c.Reaches s ∧ s.pos = t.span.start := by
  induction h with
  | done _ _ => simp [types] at ht
  | semicolon htrivia _ _ _ ih =>
    obtain ⟨s, hs, hpos⟩ := ih ht
    exact ⟨s, (reaches_skipTrivia htrivia).trans ((reaches_advance _ 1).trans hs), hpos⟩
  | leaf htrivia _ hleaf _ _ ih =>
    rw [types_cons_leaf hleaf] at ht
    obtain ⟨s, hs, hpos⟩ := ih ht
    exact ⟨s, (reaches_skipTrivia htrivia).trans ((reaches_readsLeaf hleaf).trans hs), hpos⟩
  | @type levels closing c c₁ brace close _ _ _ _ _ _ _ _ htrivia _ hopening _ hmembers _
      ihMembers ih =>
    rw [types, Declaration.types, List.cons_append, List.mem_cons, List.mem_append] at ht
    have hbody := (reaches_skipTrivia htrivia).trans ((reaches_readsOpening hopening).1.trans
      (reaches_advance brace 1))
    rcases ht with rfl | ht | ht
    · exact ⟨c₁, reaches_skipTrivia htrivia, rfl⟩
    · obtain ⟨s, hs, hpos⟩ := ihMembers ht
      exact ⟨s, hbody.trans hs, hpos⟩
    · obtain ⟨s, hs, hpos⟩ := ih ht
      exact ⟨s, hbody.trans (hmembers.reaches.trans ((reaches_advance close 1).trans hs)), hpos⟩

/-- A forest in which the opening of one type is another one, with the same parts but `n` characters
longer. -/
theorem Reads.opening_replaced (k : Carrier) (hseam : ∀ c, ¬k.AtSeam c) (n : Nat)
    {source : List Char} {t : TypeDecl} (hstart : k.Known (Cursor.seek source t.span.start))
    (hreplaced : ∀ kind name attributes modifiers inheritance brace,
      ReadsOpening (Cursor.seek source t.span.start) kind name attributes modifiers inheritance
          brace →
        ReadsOpening (k.carry (Cursor.seek source t.span.start)) kind name
          (attributes.map (Attribute.moved k.offset)) modifiers inheritance (brace.moved n []))
    {limit : Int} {levels : Nat} {closing : Option Char} {ds : List Declaration}
    (h : Reads limit levels closing c ds c') (hat : c.At source) (ht : t ∈ types ds) :
    ∃ es, Reads limit levels closing (k.carry c) es (c'.moved n []) ∧
      outlines es = outlines ds := by
  have hinside : ∀ {levels : Nat} {closing : Option Char} {c c' : Cursor} {ds : List Declaration},
      Reads limit levels closing c ds c' → c.At source → t ∈ types ds → k.Inside c := by
    intro levels closing c c' ds h hat ht
    obtain ⟨s, hs, hpos⟩ := h.reaches_types ht
    rw [← hpos, (hs.at_of hat).seek_eq] at hstart
    exact .of_not_atSeam (k.known_of_reaches hstart hs) (hseam c)
  have hbehind : ∀ {levels : Nat} {closing : Option Char} {c c' : Cursor} {ds : List Declaration},
      Reads limit levels closing c ds c' →
        Reads limit levels closing (c.moved n []) (movedAll n ds) (c'.moved n []) :=
    fun h => h.moved n atLineEnd_nil fun _ => rfl
  induction h with
  | done _ _ => simp [types] at ht
  | semicolon htrivia hclosing hsemicolon hrest ih =>
    have hatRest := ((reaches_skipTrivia htrivia).trans (reaches_advance _ 1)).at_of hat
    obtain ⟨es, hes, houtlines⟩ := ih hatRest ht
    exact ⟨es, .semicolon_carried k htrivia hclosing hsemicolon (hinside hrest hatRest ht).1 hes,
      houtlines⟩
  | @leaf _ _ _ _ _ _ d _ htrivia hd hleaf hshorter hrest ih =>
    rw [types_cons_leaf hleaf] at ht
    have hatRest := ((reaches_skipTrivia htrivia).trans (reaches_readsLeaf hleaf)).at_of hat
    have hin := hinside hrest hatRest ht
    obtain ⟨es, hes, houtlines⟩ := ih hatRest ht
    exact ⟨_, .leaf_carried k htrivia hd hleaf hshorter hin.1 (fun _ _ _ => hin) hes,
      by rw [outlines, outlines, houtlines, d.outline_moved]⟩
  | @type levels closing c c₁ brace close c' kind name attributes modifiers inheritance members ds
      htrivia hd hopening _ hmembers hrest ihMembers ih =>
    have hat₁ := (reaches_skipTrivia htrivia).at_of hat
    have hbrace := (reaches_readsOpening hopening).2.1
    have hclose := hmembers.next?
    have hatMembers :=
      ((reaches_readsOpening hopening).1.trans (reaches_advance brace 1)).at_of hat₁
    have hatRest := (hmembers.reaches.trans (reaches_advance close 1)).at_of hatMembers
    have hrest' := hbehind hrest
    rw [← advance_one_moved hclose] at hrest'
    rw [types, Declaration.types, List.cons_append, List.mem_cons, List.mem_append] at ht
    rcases ht with rfl | ht | ht
    · -- the type itself
      have hseek : Cursor.seek source c₁.pos = c₁ := hat₁.seek_eq
      dsimp only at hstart hreplaced
      rw [hseek] at hstart hreplaced
      have hmembers' := hbehind hmembers
      rw [← advance_one_moved hbrace] at hmembers'
      refine ⟨_, .of_opening (k.trivia htrivia (.of_not_atSeam hstart (hseam c₁)))
        (hd.carried k hstart (hseam c₁)) (hreplaced _ _ _ _ _ _ hopening) hmembers' hrest', ?_⟩
      simp only [outlines, Declaration.outline, List.map_map, Function.comp_def,
        Attribute.outline_moved, outlines_movedAll]
    · -- a type inside
      have hin := hinside hmembers hatMembers ht
      have hk := k.known_next hin.1
      have hk₁ := k.known_of_reaches hk (reaches_readsOpening hopening).1
      obtain ⟨es, hes, houtlines⟩ := ihMembers hatMembers ht
      rw [← k.advance_one hbrace hin.1] at hes
      refine ⟨_, .of_opening (k.trivia htrivia (.of_not_atSeam hk₁ (hseam c₁)))
        (hd.carried k hk₁ (hseam c₁)) (hopening.carried k hk) hes hrest', ?_⟩
      simp only [outlines, Declaration.outline, List.map_map, Function.comp_def,
        Attribute.outline_moved, outlines_movedAll, houtlines]
    · -- a type further on
      have hin := hinside hrest hatRest ht
      obtain ⟨es, hes, houtlines⟩ := ih hatRest ht
      refine ⟨_, .type_carried k htrivia hd hopening hmembers hin.1
        (hmembers.carried k (.of_advance hin.1 hclose)
          (k.next? (k.known_next hin.1) (hseam close))) hes, ?_⟩
      rw [outlines, outlines, houtlines, Declaration.outline_moved]

/-! ## Names in front of a clause -/

/-- A name with some of what follows it is read in front of what does not prolong it. -/
theorem nameLength?_take {cs r : List Char} {n : Nat} (h : nameLength? cs = some n) (k : Nat)
    (hr : NameEnd r) :
    nameLength? (cs.take (n + k) ++ r) = some n ∧
      (cs.take (n + k) ++ r).drop n = (cs.drop n).take k ++ r := by
  obtain ⟨name, behind, rfl, rfl, hname, hend⟩ := nameLength?_spec h
  rw [List.take_length_add_append, List.append_assoc, List.drop_left, List.drop_left]
  refine ⟨nameLength?_append hname fun hplain => ?_, rfl⟩
  intro ch hch
  cases hk : behind.take k with
  | nil =>
    rw [hk] at hch
    exact hr ch hch
  | cons d ds =>
    rw [hk] at hch
    refine hend hplain ch ?_
    rw [← List.take_append_drop k behind, hk]
    exact hch

theorem qualifiedTailLength_take (cs : List Char) {r : List Char} (hr : DottedEnd r) :
    qualifiedTailLength (cs.take (qualifiedTailLength cs) ++ r) = qualifiedTailLength cs := by
  fun_induction qualifiedTailLength cs with
  | case1 rest n hn ih =>
    obtain ⟨hlength, hdrop⟩ := nameLength?_take hn (qualifiedTailLength (rest.drop n)) hr.1
    have hsum : n + 1 + qualifiedTailLength (rest.drop n)
        = n + qualifiedTailLength (rest.drop n) + 1 := by omega
    rw [hsum, List.take_succ_cons, List.cons_append, qualifiedTailLength_cons hlength, hdrop, ih]
    omega
  | case2 rest _ => exact qualifiedTailLength_nil hr.2
  | case3 cs _ => exact qualifiedTailLength_nil hr.2

/-- A qualified name is the same in front of anything that does not prolong it, and so is the first
of its names. -/
theorem readQualifiedName?_seam {name : String} {r : List Char}
    (h : readQualifiedName? c = some (name, c')) (hr : DottedEnd r) (p : Nat) :
    readQualifiedName? ⟨p, name.toList ++ r⟩ = some (name, ⟨p + name.toList.length, r⟩) ∧
      (readName? ⟨p, name.toList ++ r⟩).map Prod.fst = (readName? c).map Prod.fst ∧
      BeginsToken name.toList := by
  obtain ⟨n, hn, heq⟩ := Option.map_eq_some_iff.1 h
  obtain ⟨rfl, rfl⟩ := Prod.mk.inj heq
  rw [String.toList_ofList]
  obtain ⟨hlength, hdrop⟩ := nameLength?_take hn (qualifiedTailLength (c.rest.drop n)) hr.1
  have htail := qualifiedTailLength_le (c.rest.drop n)
  rw [List.length_drop] at htail
  have hle := (nameLength?_pos hn).2
  have htext : (c.rest.take (n + qualifiedTailLength (c.rest.drop n))).length
      = n + qualifiedTailLength (c.rest.drop n) := by
    rw [List.length_take]
    omega
  refine ⟨?_, ?_, ?_⟩
  · rw [readQualifiedName?, hlength]
    have hadvance := advance_append p (c.rest.take (n + qualifiedTailLength (c.rest.drop n))) r
    rw [htext] at hadvance ⊢
    simp only [Option.map_some, hdrop, qualifiedTailLength_take _ hr, List.take_left' htext,
      hadvance]
  · rw [readName?, hlength, readName?, hn]
    simp only [Option.map_some]
    rw [List.take_append_of_le_length (by omega), List.take_take, Nat.min_eq_left (by omega)]
  · obtain ⟨first, behind, hrest, rfl, hfirst, -⟩ := nameLength?_spec hn
    rw [hrest, List.take_length_add_append]
    exact hfirst.begins.append _

/-! ## The clause -/

theorem typeNameEnd?_spec {nameEnd : Cursor} (h : typeNameEnd? c = some nameEnd) :
    ∃ attributes c₁ modifiers c₂ kind after c₃ name, readAttributes c = .ok (attributes, c₁) ∧
      readModifiers c₁ = .ok (modifiers, c₂) ∧ lead c₂ = .type kind after ∧
      skipTrivia after = .ok c₃ ∧ readQualifiedName? c₃ = some (name, nameEnd) := by
  unfold typeNameEnd? at h
  split at h
  · simp at h
  · rename_i hattributes
    split at h
    · simp at h
    · rename_i hmodifiers
      split at h
      · rename_i hlead
        split at h
        · simp at h
        · rename_i htrivia
          obtain ⟨⟨name, _⟩, hname, rfl⟩ := Option.map_eq_some_iff.1 h
          exact ⟨_, _, _, _, _, _, _, _, hattributes, hmodifiers, hlead, htrivia, hname⟩
      · simp at h

/-- The keyword of a type is a plain name, so something else comes after it. -/
theorem lead_type_spec {kind : TypeKind} {after : Cursor} (h : lead c = .type kind after) :
    readName? c = some (kind.keyword, after) ∧ NameEnd after.rest := by
  unfold lead at h
  split at h
  · simp at h
  · rename_i word after' hname
    split at h
    · rename_i kind' hkind
      obtain ⟨rfl, rfl⟩ := Lead.type.inj h
      have hword : kind'.keyword = word := by simpa using List.find?_some hkind
      subst hword
      refine ⟨hname, ?_⟩
      obtain ⟨n, hn, heq⟩ := Option.map_eq_some_iff.1 hname
      obtain ⟨hword, rfl⟩ := Prod.mk.inj heq
      obtain ⟨w, r, hrest, rfl, -, hend⟩ := nameLength?_spec hn
      rw [hrest, List.take_left] at hword
      rw [advance_rest, hrest, List.drop_left]
      refine hend ?_
      rw [← String.toList_ofList (l := w), hword]
      exact plainName_keyword kind'
    · split at h <;> simp at h

/-- The first word of the opening of a type up to the first character of its name. -/
theorem headed_keyword (kind : TypeKind) {gap : List Char} {ch : Char} {r : List Char}
    (hend : NameEnd (gap ++ ch :: r)) : Headed (kind.keyword.toList ++ (gap ++ [ch])) := by
  obtain ⟨first, word, hword, hfirst, -⟩ := plainName_keyword kind
  rw [hword]
  refine ⟨?_, ?_⟩
  · intro x hx
    obtain rfl := Option.some.inj hx
    exact hfirst
  · cases gap with
    | nil => exact ⟨ch, by simp, hend ch rfl⟩
    | cons d gap => exact ⟨d, by simp, hend d rfl⟩

/-- A clause behind the name of a type is passed, and the rest of the opening is read further on. -/
theorem readTypeOpening_insert {name name' : String} {inheritance : List String}
    {c₁ nameEnd brace : Cursor} {clause : List Char}
    (h : readTypeOpening c = .ok ((name', inheritance), brace))
    (htrivia : skipTrivia c = .ok c₁) (hname : readQualifiedName? c₁ = some (name, nameEnd))
    (hgeneric : nameEnd.next? ≠ some '<') (hclause : GenericClause clause) {after c₁' : Cursor}
    (htrivia' : skipTrivia after = .ok c₁')
    (hname' : readQualifiedName? c₁' = some (name, ⟨nameEnd.pos, clause ++ nameEnd.rest⟩)) :
    readTypeOpening after = .ok ((name', inheritance), brace.moved clause.length []) := by
  obtain ⟨d₁, d₂, d₃, d₄, hd₁, hd₂, hd₃, hd₄, hinheritance, hbrace⟩ := readTypeOpening_spec h
  obtain rfl := Except.ok.inj (htrivia.symm.trans hd₁)
  obtain ⟨rfl, rfl⟩ := Prod.mk.inj (Option.some.inj (hname.symm.trans hd₂))
  rw [skipGenerics, if_neg hgeneric] at hd₃
  obtain rfl := Except.ok.inj hd₃
  let k := moving clause.length atLineEnd_nil
  have hin : ∀ d, k.Inside d := fun d => inside_moving.2 fun _ => rfl
  have hskip : skipGenerics ⟨nameEnd.pos, clause ++ nameEnd.rest⟩ = .ok (k.carry nameEnd) := by
    rw [hclause.skipGenerics]
    simp [k, Cursor.moved]
  have hbrace' := (k.next?_iff (hin brace).1 (by decide)).2 hbrace
  simp only [readTypeOpening, bind, Except.bind, htrivia', hname', hskip, k.trivia hd₄ (hin d₄),
    k.inheritance hinheritance hbrace (hin brace).1, hbrace', if_true, pure, Except.pure]
  simp only [k, moving_carry]

/-- The text in front of the end of a type's name, with a clause put in there: how cursors are
carried over, and the opening of the type with the clause. -/
theorem exists_inserting {nameEnd : Cursor} {clause : List Char}
    (hnameEnd : typeNameEnd? c = some nameEnd) (hgeneric : nameEnd.next? ≠ some '<')
    (hclause : GenericClause clause) :
    ∃ k : Carrier, (∀ d, ¬k.AtSeam d) ∧ k.Known c ∧
      (∀ d w, k.Known d → d.rest = w ++ nameEnd.rest →
        k.carry d = ⟨d.pos, w ++ (clause ++ nameEnd.rest)⟩) ∧
      ∀ kind name attributes modifiers inheritance brace,
        ReadsOpening c kind name attributes modifiers inheritance brace →
          ReadsOpening (k.carry c) kind name (attributes.map (Attribute.moved k.offset)) modifiers
            inheritance (brace.moved clause.length []) := by
  obtain ⟨_, c₁, _, c₂, kind, after, c₃, name, hattributes, hmodifiers, hlead, htrivia, hname⟩ :=
    typeNameEnd?_spec hnameEnd
  obtain ⟨hword, hend⟩ := lead_type_spec hlead
  have hdotted : DottedEnd (clause ++ nameEnd.rest) := by
    obtain ⟨inner, -, rfl⟩ := hclause
    exact ⟨.cons _ (by decide), by simp⟩
  obtain ⟨hname', hfirst, hbegins⟩ := readQualifiedName?_seam hname hdotted c₃.pos
  have hmovesName := moves_readQualifiedName? hname
  rw [← hmovesName.2] at hname'
  obtain ⟨gap, hmovesGap, hgap, -⟩ := skipTrivia_spec htrivia
  have hmovesWord := moves_readName? hword
  -- the word, what separates it from the name, and the first character of the name stay
  obtain ⟨ch, tail, htext, -⟩ := id hbegins
  have hafter : after.rest = gap ++ ch :: (tail ++ nameEnd.rest) := by
    rw [hmovesGap.1, hmovesName.1, htext, List.cons_append]
  have hb := headed_keyword kind (hafter ▸ hend)
  let k := replacing hb (tail ++ nameEnd.rest) (tail ++ (clause ++ nameEnd.rest))
  have hrest : c₂.rest
      = [] ++ (kind.keyword.toList ++ (gap ++ [ch]) ++ (tail ++ nameEnd.rest)) := by
    rw [hmovesWord.1, hafter]
    simp
  have hin₂ : k.Inside c₂ := .of_not_atSeam ⟨[], hrest⟩ fun h => h
  have hin₁ := hin₂.of_reaches (reaches_readModifiers hmodifiers)
  have hcarried : k.carry c₂ = ⟨c₂.pos,
      kind.keyword.toList ++ (gap ++ (name.toList ++ (clause ++ nameEnd.rest)))⟩ := by
    rw [show k.carry c₂ = _ from replaced_rest hrest, htext]
    simp
  refine ⟨k, fun _ h => h, k.known_of_reaches hin₁.1 (reaches_readAttributes hattributes).1,
    ?_, ?_⟩
  · rintro d w ⟨u, hu⟩ hd
    have hw : w = u ++ (kind.keyword.toList ++ (gap ++ [ch]) ++ tail) := by
      refine List.append_cancel_right (hd.symm.trans ?_)
      rw [hu]
      simp
    rw [show k.carry d = _ from replaced_rest hu, hw]
    simp
  · intro kind' name' attributes' modifiers' inheritance brace h
    obtain ⟨d₁, d₂, after', hattributes', hmodifiers', hlead', hopening⟩ := h
    obtain ⟨rfl, rfl⟩ := Prod.mk.inj (Except.ok.inj (hattributes.symm.trans hattributes'))
    obtain ⟨rfl, rfl⟩ := Prod.mk.inj (Except.ok.inj (hmodifiers.symm.trans hmodifiers'))
    obtain ⟨rfl, rfl⟩ := Lead.type.inj (hlead.symm.trans hlead')
    let after' : Cursor := ⟨after.pos, gap ++ (name.toList ++ (clause ++ nameEnd.rest))⟩
    let c₃' : Cursor := ⟨c₃.pos, name.toList ++ (clause ++ nameEnd.rest)⟩
    have hend' : NameEnd after'.rest := by
      rw [hafter] at hend
      intro x hx
      refine hend x ?_
      cases gap <;> simpa [after', htext] using hx
    have hword' : readName? (k.carry c₂) = some (kind.keyword, after') := by
      rw [hcarried, readName?_append (.inl (plainName_keyword kind)) hend', String.ofList_toList,
        ← hmovesWord.2]
    have hgap' : Trivia gap c₃'.rest := by
      refine hgap.seam fun h x hx => h x ?_
      rw [hmovesName.1]
      simpa [c₃', htext] using hx
    have hsolid : Solid c₃'.rest := (hbegins.append _).solid
    have htrivia' : skipTrivia after' = .ok c₃' := by
      have := skipTrivia_text hgap' hsolid after.pos
      rwa [← hmovesGap.2] at this
    refine ⟨k.carry c₁, k.carry c₂, after', k.attributes hattributes hin₁,
      k.modifiers hmodifiers hin₂ ?_, ?_, ?_⟩
    · intro after₀ hclass
      obtain ⟨hkeyword, rfl⟩ := Prod.mk.inj (Option.some.inj (hword.symm.trans hclass))
      rw [← hkeyword]
      refine ⟨after', hword', ?_⟩
      rw [isModifier_congr htrivia htrivia' hfirst]
      exact isModifier_of_readModifiers hmodifiers hword
    · rw [lead, hword']
      simp only [ofKeyword?_keyword]
    · exact readTypeOpening_insert hopening htrivia hname hgeneric hclause htrivia' hname'

/-- **A generic clause is passed as a whole.** Put behind the name of any type of a source that has
none yet, a clause whose angle brackets are balanced leaves the tree as it is but for the places. -/
theorem readSource_insert_generics {limits : Limits} {pre post clause : List Char}
    {ds : List Declaration} {t : TypeDecl} (h : readSource limits (pre ++ post) = .ok ds)
    (ht : t ∈ types ds)
    (hname : typeNameEnd? (Cursor.seek (pre ++ post) t.span.start) = some ⟨pre.length, post⟩)
    (hgeneric : t.isGeneric (pre ++ post) = false) (hclause : GenericClause clause)
    (hsize : limits.maxSourceSize ≤ 0 ∨
      ((pre ++ (clause ++ post)).length : Int) ≤ limits.maxSourceSize) :
    ∃ ds', readSource limits (pre ++ (clause ++ post)) = .ok ds' ∧ outlines ds' = outlines ds := by
  obtain ⟨-, c', hreads⟩ := readSource_eq_ok.1 h
  have hplain : (⟨pre.length, post⟩ : Cursor).next? ≠ some '<' := by
    rw [TypeHeader.isGeneric, hname] at hgeneric
    exact beq_eq_false_iff_ne.1 hgeneric
  obtain ⟨k, hseam, hk, hcarry, hopening⟩ := exists_inserting hname hplain hclause
  obtain ⟨es, hes, houtlines⟩ := hreads.opening_replaced k hseam clause.length hk hopening
    (start_at _) ht
  have hstart : k.carry (Cursor.start (pre ++ post)) = Cursor.start (pre ++ (clause ++ post)) := by
    obtain ⟨s, hs, hpos⟩ := hreads.reaches_types ht
    rw [← hpos, (hs.at_of (start_at _)).seek_eq] at hk
    exact hcarry _ pre (k.known_of_reaches hk hs) rfl
  rw [hstart] at hes
  exact ⟨es, readSource_eq_ok.2 ⟨by omega, _, hes⟩, houtlines⟩

/-- A class with modifiers and a comment in an enumeration, cut behind the name of the class. -/
def plainPre : List Char := "@A(b: \"<\") enum L \x7b\n  final class /* > */ M".toList

def plainPost : List Char := " : P<Q> \x7b case x \x7d\n  enum N \x7b \x7d\n\x7d\n".toList

theorem readSource_insert_generics_plainPre :
    ∃ ds t ds', readSource {} (plainPre ++ plainPost) = .ok ds ∧ t ∈ types ds ∧
      typeNameEnd? (Cursor.seek (plainPre ++ plainPost) t.span.start)
        = some ⟨plainPre.length, plainPost⟩ ∧
      t.isGeneric (plainPre ++ plainPost) = false ∧ GenericClause "<T: F<[S]>, U>".toList ∧
      readSource {} (plainPre ++ ("<T: F<[S]>, U>".toList ++ plainPost)) = .ok ds' ∧
      outlines ds' = outlines ds := by
  have hclause : GenericClause "<T: F<[S]>, U>".toList :=
    ⟨"T: F".toList ++ '<' :: ("[S]".toList ++ '>' :: ", U".toList),
      (angles_of_all (by decide)).append
        (.nested (angles_of_all (by decide)) (angles_of_all (by decide))), rfl⟩
  have hchecked : (readSource {} (plainPre ++ plainPost)).toOption.any (fun ds =>
      (types ds).any fun t =>
        typeNameEnd? (Cursor.seek (plainPre ++ plainPost) t.span.start)
            == some ⟨plainPre.length, plainPost⟩ &&
          !t.isGeneric (plainPre ++ plainPost)) = true := by
    decide +kernel
  cases hread : readSource {} (plainPre ++ plainPost) with
  | error f => simp [hread, Except.toOption] at hchecked
  | ok ds =>
    simp only [hread, Except.toOption, Option.any_some, List.any_eq_true, Bool.and_eq_true,
      beq_iff_eq, Bool.not_eq_true'] at hchecked
    obtain ⟨t, ht, hname, hgeneric⟩ := hchecked
    obtain ⟨ds', hread', houtlines⟩ :=
      readSource_insert_generics hread ht hname hgeneric hclause (.inr (by decide +kernel))
    exact ⟨ds, t, ds', rfl, ht, hname, hgeneric, hclause, hread', houtlines⟩

/-- An arrow, or an angle bracket in a comment, ends a clause too early. -/
example : (readSource {} "struct A<T: F<(Int) -> Bool>> \x7b \x7d".toList).isOk = false ∧
    (readSource {} "struct A<T /* > */> \x7b \x7d".toList).isOk = false := by decide +kernel

end LocalizedKeys.Swift
