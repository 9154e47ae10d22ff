import LocalizedKeys.Proofs.Reach
import LocalizedKeys.Proofs.Rounds
import LocalizedKeys.Proofs.Seams

/-!
# Reading the same in another text

When a text is changed in one place, what is read elsewhere in it stays the same. A `Carrier` takes
the cursors of one text to another text and says in a few laws what the two have in common. From
these laws the readers of declarations are gone through one by one, up to `Reads.carried`, which
carries the derivation of a forest over. What a change of a text does is then found by showing the
laws for it.

The last place that the two texts share may be a seam: there one of them goes on with something
soft and the other one ends or goes on with a new line. What is read up to the seam is the same, as
long as nothing but trivia could go on over it.

Wherever a reader looks ahead, the place it looks at has to be shown not to lie behind the change.
This comes from what is read afterwards: the reader that goes on passes that place
(`Inside.of_reaches` and `reaches_of_passes`). Only a declaration that consists of attributes and
modifiers (`onlyLeads`) would take something of what comes after it.
-/

namespace LocalizedKeys

/-- The span `n` characters further on. -/
def Span.moved (n : Nat) (s : Span) : Span := ⟨s.start + n, s.stop + n⟩

namespace Swift

open Text Cursor

/-! ## Trees at another place -/

def Argument.moved (n : Nat) (a : Argument) : Argument := { a with span := a.span.moved n }

def Attribute.moved (n : Nat) (a : Attribute) : Attribute :=
  { a with arguments := a.arguments.map (·.map (Argument.moved n)), span := a.span.moved n }

def CaseElement.moved (n : Nat) (e : CaseElement) : CaseElement := { e with span := e.span.moved n }

def TypeHeader.moved (n : Nat) (header : TypeHeader) : TypeHeader :=
  { header with
    attributes := header.attributes.map (Attribute.moved n)
    span := header.span.moved n
    body := header.body.moved n }

mutual

/-- The declaration `n` characters further on. -/
def Declaration.moved (n : Nat) : Declaration → Declaration
  | .type header members => .type (header.moved n) (movedAll n members)
  | .cases elements span => .cases (elements.map (CaseElement.moved n)) (span.moved n)
  | .other text attributes modifiers span =>
    .other text (attributes.map (Attribute.moved n)) modifiers (span.moved n)

/-- The forest `n` characters further on. -/
def movedAll (n : Nat) : List Declaration → List Declaration
  | [] => []
  | d :: rest => d.moved n :: movedAll n rest

end

theorem movedAll_eq_map (n : Nat) (ds : List Declaration) :
    movedAll n ds = ds.map (Declaration.moved n) := by
  induction ds with
  | nil => rfl
  | cons d rest ih => rw [movedAll, ih, List.map_cons]

@[simp] theorem Argument.moved_zero : Argument.moved 0 = id := rfl

@[simp] theorem Attribute.moved_zero : Attribute.moved 0 = id := by
  funext a
  cases a with
  | mk name arguments span => cases arguments <;> simp [moved, Span.moved]

@[simp] theorem CaseElement.moved_zero : CaseElement.moved 0 = id := rfl

theorem TypeHeader.moved_zero (header : TypeHeader) : header.moved 0 = header := by
  simp [moved, Span.moved]

theorem Declaration.moved_zero (d : Declaration) : d.moved 0 = d := by
  cases d with
  | type header members =>
    have hmembers : ∀ m ∈ members, m.moved 0 = m := fun m _ => m.moved_zero
    rw [Declaration.moved, header.moved_zero, movedAll_eq_map, List.map_congr_left hmembers,
      List.map_id']
  | cases elements span => simp [Declaration.moved, Span.moved]
  | other text attributes modifiers span => simp [Declaration.moved, Span.moved]

theorem movedAll_zero (ds : List Declaration) : movedAll 0 ds = ds := by
  rw [movedAll_eq_map, funext Declaration.moved_zero, List.map_id']

theorem Attribute.outline_moved (n : Nat) (a : Attribute) : (a.moved n).outline = a.outline := by
  cases a with
  | mk name arguments span => cases arguments <;> simp [moved, outline, Argument.moved, Argument.outline]

theorem CaseElement.outline_moved (n : Nat) (e : CaseElement) : (e.moved n).outline = e.outline :=
  rfl

mutual

/-- The outline does not depend on the place. -/
theorem Declaration.outline_moved (n : Nat) (d : Declaration) :
    (d.moved n).outline = d.outline := by
  cases d with
  | type header members =>
    simp [Declaration.moved, Declaration.outline, TypeHeader.moved, Attribute.outline_moved,
      outlines_movedAll n members]
  | cases elements span =>
    simp [Declaration.moved, Declaration.outline, CaseElement.outline_moved]
  | other text attributes modifiers span =>
    simp [Declaration.moved, Declaration.outline, Attribute.outline_moved]

theorem outlines_movedAll (n : Nat) (ds : List Declaration) :
    outlines (movedAll n ds) = outlines ds := by
  cases ds with
  | nil => rfl
  | cons d rest => rw [movedAll, outlines, outlines, d.outline_moved, outlines_movedAll n rest]

end

variable {c c' : Cursor}

/-! ## What two texts have in common -/

/-- A way to take the cursors of one text to another text. Those that are known lie in front of what
is different, and the last name or group of lines in front of it is the same in both texts. -/
structure Carrier where
  /-- How much further on things stand in the other text. -/
  offset : Nat
  carry : Cursor → Cursor
  Known : Cursor → Prop
  AtSeam : Cursor → Prop
  carry_pos : ∀ c, (carry c).pos = c.pos + offset
  known_of_reaches : ∀ {c c'}, Known c' → c.Reaches c' → Known c
  known_advance : ∀ {c ch}, Known c → c.next? = some ch → isNameStart ch = false →
    isSoft ch = false → Known (c.advance 1)
  moves : ∀ {c c' w}, c.Moves w c' → Known c' → (carry c).Moves w (carry c')
  /-- Nothing behind the seam is known. -/
  seam_last : ∀ {c c'}, AtSeam c → Known c' → c.rest.length ≤ c'.rest.length
  seam_soft : ∀ {c ch}, AtSeam c → c.next? = some ch → isSoft ch = true
  /-- The other text ends at the seam or goes on with a new line. -/
  atLineEnd : ∀ {c}, AtSeam c → AtLineEnd (carry c).rest
  /-- In front of the seam the next two characters are the same. -/
  cons : ∀ {c}, Known c → ¬AtSeam c →
    ∃ ch r r', c.rest = ch :: r ∧ (carry c).rest = ch :: r' ∧ SameNext r r'
  /-- The same name comes next, even where it goes on up to what is different. -/
  sameName : ∀ {c}, Known c → (readName? (carry c)).map Prod.fst = (readName? c).map Prod.fst
  passes : ∀ {fs fs' w n c}, Passes fs w n fs' c.rest → Known c → Passes fs w n fs' (carry c).rest

/-- What a generic clause is does not depend on what comes after it. -/
theorem exists_generics {depth passed n : Nat} {cs : List Char}
    (h : genericLength? depth passed cs = some n) :
    ∃ w r, cs = w ++ r ∧ n = passed + w.length ∧
      ∀ r', genericLength? depth passed (w ++ r') = some n := by
  fun_induction genericLength? depth passed cs with
  | case1 => simp at h
  | case2 depth passed rest ih =>
    obtain ⟨w, r, rfl, hn, hw⟩ := ih h
    refine ⟨'<' :: w, r, rfl, by rw [hn, List.length_cons]; omega, fun r' => ?_⟩
    rw [List.cons_append, genericLength?, if_pos rfl, hw]
  | case3 passed rest hopen =>
    obtain rfl := Option.some.inj h
    refine ⟨['>'], rest, rfl, rfl, fun r' => ?_⟩
    rw [List.cons_append, genericLength?, if_neg hopen, if_pos rfl, if_pos rfl]
  | case4 depth passed rest hopen hdepth ih =>
    obtain ⟨w, r, rfl, hn, hw⟩ := ih h
    refine ⟨'>' :: w, r, rfl, by rw [hn, List.length_cons]; omega, fun r' => ?_⟩
    rw [List.cons_append, genericLength?, if_neg hopen, if_pos rfl, if_neg hdepth, hw]
  | case5 depth passed ch rest hopen hclose ih =>
    obtain ⟨w, r, rfl, hn, hw⟩ := ih h
    refine ⟨ch :: w, r, rfl, by rw [hn, List.length_cons]; omega, fun r' => ?_⟩
    rw [List.cons_append, genericLength?, if_neg hopen, if_neg hclose, hw]

/-- Whether a word is a modifier depends on the name behind it only. -/
theorem isModifier_congr {word : String} {after after' : Cursor} (h : skipTrivia after = .ok c)
    (h' : skipTrivia after' = .ok c')
    (hsame : (readName? c').map Prod.fst = (readName? c).map Prod.fst) :
    isModifier word after' = isModifier word after := by
  simp only [isModifier, h, h']
  cases hname : readName? c <;> cases hname' : readName? c' <;> simp_all

/-- A word at which the modifiers stop is none. -/
theorem isModifier_of_readModifiers {ms : List String} {word : String} {after : Cursor}
    (h : readModifiers c = .ok (ms, c')) (hname : readName? c' = some (word, after)) :
    isModifier word after = .ok false := by
  fun_induction readModifiers c generalizing ms c' with
  | case1 c hnone =>
    obtain ⟨-, rfl⟩ := Prod.mk.inj (Except.ok.inj h)
    simp [hnone] at hname
  | case3 c word' c₁ hname' hword =>
    obtain ⟨-, rfl⟩ := Prod.mk.inj (Except.ok.inj h)
    obtain ⟨rfl, rfl⟩ := Prod.mk.inj (Option.some.inj (hname.symm.trans hname'))
    exact hword
  | case6 c word' c₁ _ _ c₂ _ others c₃ hrest ih =>
    obtain ⟨-, rfl⟩ := Prod.mk.inj (Except.ok.inj h)
    exact ih hrest hname
  | case2 | case4 | case5 => simp at h

namespace Carrier

/-- The cursor is known, and the other text ends there if the cursor is at the seam. So trivia that
ends there ends there in the other text too. -/
def Inside (k : Carrier) (c : Cursor) : Prop :=
  k.Known c ∧ (k.AtSeam c → (k.carry c).rest = [])

variable {k : Carrier}

theorem not_atSeam (hk : k.Known c') (h : c'.rest.length < c.rest.length) : ¬k.AtSeam c := by
  intro hseam
  have := k.seam_last hseam hk
  omega

theorem not_atSeam_of_next {ch : Char} (h : c.next? = some ch) (hch : isSoft ch = false) :
    ¬k.AtSeam c := by
  intro hseam
  simp [k.seam_soft hseam h] at hch

theorem Inside.of_not_atSeam (hk : k.Known c) (h : ¬k.AtSeam c) : k.Inside c :=
  ⟨hk, fun hseam => absurd hseam h⟩

/-- What lies in front of a known place is no seam. -/
theorem Inside.of_shorter (hk : k.Known c') (hreaches : c.Reaches c')
    (h : c'.rest.length < c.rest.length) : k.Inside c :=
  .of_not_atSeam (k.known_of_reaches hk hreaches) (not_atSeam hk h)

theorem Inside.of_advance {ch : Char} (hk : k.Known (c.advance 1)) (h : c.next? = some ch) :
    k.Inside c := .of_shorter hk (reaches_advance c 1) (advance_shorter h)

theorem Inside.of_next {ch : Char} (hk : k.Known c) (h : c.next? = some ch)
    (hch : isSoft ch = false) : k.Inside c := .of_not_atSeam hk (not_atSeam_of_next h hch)

theorem Inside.of_reaches (h : k.Inside c') (hreaches : c.Reaches c') : k.Inside c := by
  refine ⟨k.known_of_reaches h.1 hreaches, fun hseam => ?_⟩
  obtain ⟨w, hmoves⟩ := hreaches
  have hlast := k.seam_last hseam h.1
  rw [hmoves.1, List.length_append] at hlast
  obtain rfl := List.eq_nil_of_length_eq_zero (by omega : w.length = 0)
  obtain rfl := (Moves.refl c).unique hmoves
  exact h.2 hseam

theorem next? (hk : k.Known c) (hseam : ¬k.AtSeam c) : (k.carry c).next? = c.next? := by
  obtain ⟨ch, r, r', hr, hr', -⟩ := k.cons hk hseam
  rw [Cursor.next?, Cursor.next?, hr', hr, List.head?_cons, List.head?_cons]

theorem next?_iff {ch : Char} (hk : k.Known c) (hch : isSoft ch = false) :
    (k.carry c).next? = some ch ↔ c.next? = some ch := by
  by_cases hseam : k.AtSeam c
  · refine ⟨fun h => ?_, fun h => absurd hseam (not_atSeam_of_next h hch)⟩
    have := isSoft_of_isLayout (isLayout_of_isLineEnd (k.atLineEnd hseam ch h))
    simp [hch] at this
  · rw [next? hk hseam]

theorem advance {n : Nat} (hn : n ≤ c.rest.length) (hk : k.Known (c.advance n)) :
    (k.carry c).advance n = k.carry (c.advance n) ∧
      (k.carry c).rest.take n = c.rest.take n := by
  have hmoves := k.moves (moves_advance hn) hk
  have hlength : (c.rest.take n).length = n := by rw [List.length_take, Nat.min_eq_left hn]
  have hadvance := hmoves.advance_eq
  rw [hlength] at hadvance
  exact ⟨hadvance, by rw [hmoves.1, List.take_left' hlength]⟩

theorem advance_one {ch : Char} (h : c.next? = some ch) (hk : k.Known (c.advance 1)) :
    (k.carry c).advance 1 = k.carry (c.advance 1) :=
  (advance (List.length_pos_iff.2 (rest_ne_nil_of_next? h)) hk).1

theorem known_next (hk : k.Known (c.advance 1)) : k.Known c :=
  k.known_of_reaches hk (reaches_advance c 1)

theorem carried_shorter (hk : k.Known c') (hreaches : c.Reaches c')
    (h : c'.rest.length < c.rest.length) :
    (k.carry c').rest.length < (k.carry c).rest.length := by
  obtain ⟨w, hmoves⟩ := hreaches
  rw [hmoves.1, List.length_append] at h
  rw [(k.moves hmoves hk).1, List.length_append]
  omega

/-! ## Trivia -/

theorem lineEnd (hk : k.Known c) (h : AtLineEnd c.rest) : AtLineEnd (k.carry c).rest := by
  by_cases hseam : k.AtSeam c
  · exact k.atLineEnd hseam
  · rw [AtLineEnd, ← Cursor.next?, next? hk hseam]
    exact h

/-- Trivia goes on behind a known place where something is added to it there. -/
theorem trivia_eq (h : skipTrivia c = .ok c') (hk : k.Known c') :
    skipTrivia (k.carry c) = skipTrivia (k.carry c') := by
  obtain ⟨w, hmoves, hw, -⟩ := skipTrivia_spec h
  obtain ⟨hrest, hpos⟩ := k.moves hmoves hk
  have := skipTrivia_append (hw.seam (lineEnd hk)) (k.carry c).pos
  rwa [← hrest, ← hpos] at this

theorem trivia (h : skipTrivia c = .ok c') (hin : k.Inside c') :
    skipTrivia (k.carry c) = .ok (k.carry c') := by
  obtain ⟨w, -, -, hsolid⟩ := skipTrivia_spec h
  rw [trivia_eq h hin.1]
  refine skipTrivia_solid ?_ _
  by_cases hseam : k.AtSeam c'
  · rw [hin.2 hseam]
    trivial
  · obtain ⟨ch, r, r', hr, hr', hnext⟩ := k.cons hin.1 hseam
    rw [hr] at hsolid
    rw [hr']
    exact hsolid.of_sameNext hnext

theorem inlineTrivia (h : skipInlineTrivia c = .ok c') (hk : k.Known c') :
    skipInlineTrivia (k.carry c) = .ok (k.carry c') := by
  obtain ⟨w, hmoves, hw, hsolid⟩ := skipInlineTrivia_spec h
  have hsolid' : InlineSolid (k.carry c').rest := by
    by_cases hseam : k.AtSeam c'
    · exact (k.atLineEnd hseam).inlineSolid
    · obtain ⟨ch, r, r', hr, hr', hnext⟩ := k.cons hk hseam
      rw [hr] at hsolid
      rw [hr']
      exact hsolid.of_sameNext hnext
  obtain ⟨hrest, hpos⟩ := k.moves hmoves hk
  have := skipInlineTrivia_text (hw.seam (lineEnd hk)) hsolid' (k.carry c).pos
  rwa [← hrest, ← hpos] at this

/-! ## Names -/

theorem nameLength (hk : k.Known c) : nameLength? (k.carry c).rest = nameLength? c.rest := by
  have hsame := k.sameName hk
  have hlength : ∀ {cs : List Char} {n : Nat}, nameLength? cs = some n → (cs.take n).length = n :=
    fun h => by rw [List.length_take, Nat.min_eq_left (nameLength?_pos h).2]
  rw [readName?, readName?, Option.map_map, Option.map_map] at hsame
  cases hn : nameLength? c.rest with
  | none => simpa [hn] using hsame
  | some n =>
    rw [hn, Option.map_some, Option.map_eq_some_iff] at hsame
    obtain ⟨m, hm, htake⟩ := hsame
    rw [Function.comp, Function.comp, String.ofList_inj] at htake
    rw [hm, ← hlength hm, ← hlength hn, htake]

theorem name_none (hk : k.Known c) (h : readName? c = none) : readName? (k.carry c) = none := by
  rw [readName?, Option.map_eq_none_iff] at h ⊢
  rw [nameLength hk, h]

theorem name_some {name : String} (hk : k.Known c) (h : readName? c = some (name, c')) :
    ∃ after, readName? (k.carry c) = some (name, after) := by
  have hsame := k.sameName hk
  rw [h, Option.map_some] at hsame
  obtain ⟨⟨_, after⟩, hafter, rfl⟩ := Option.map_eq_some_iff.1 hsame
  exact ⟨after, hafter⟩

theorem name {name : String} (h : readName? c = some (name, c')) (hk : k.Known c') :
    readName? (k.carry c) = some (name, k.carry c') := by
  have hmoves := moves_readName? h
  obtain ⟨after, hafter⟩ := name_some (k.known_of_reaches hk hmoves.reaches) h
  rw [hafter, (moves_readName? hafter).unique (k.moves hmoves hk)]

theorem qualifiedTailLength (hk : k.Known (c.advance (qualifiedTailLength c.rest))) :
    Swift.qualifiedTailLength (k.carry c).rest = Swift.qualifiedTailLength c.rest := by
  have hdot : ∀ {c : Cursor} {rest : List Char}, k.Known c → c.rest = '.' :: rest →
      k.Known (c.advance 1) ∧ (k.carry c).rest = '.' :: (k.carry (c.advance 1)).rest := by
    intro c rest hk hrest
    have hk₁ := k.known_advance hk (by rw [Cursor.next?, hrest]; rfl) (by decide) (by decide)
    have hfirst : c.Moves ['.'] (c.advance 1) := by simp [Moves, Cursor.advance, hrest]
    exact ⟨hk₁, (k.moves hfirst hk₁).1⟩
  generalize hcs : c.rest = cs
  rw [hcs] at hk
  have hk₀ := k.known_of_reaches hk (reaches_advance c _)
  fun_induction Swift.qualifiedTailLength cs generalizing c with
  | case1 rest n hn ih =>
    obtain ⟨hk₁, hcarried⟩ := hdot hk₀ hcs
    have hrest : (c.advance 1).rest = rest := by simp [hcs]
    rw [Nat.add_comm n 1, Nat.add_assoc, ← advance_advance, ← advance_advance] at hk
    have hk₂ := k.known_of_reaches hk (reaches_advance _ _)
    have hadvance := (advance (by rw [hrest]; exact (nameLength?_pos hn).2) hk₂).1
    have hdrop : (k.carry (c.advance 1)).rest.drop n
        = (k.carry ((c.advance 1).advance n)).rest := congrArg Cursor.rest hadvance
    have hn' : nameLength? (k.carry (c.advance 1)).rest = some n := by
      rw [nameLength hk₁, hrest, hn]
    have hcs₂ : ((c.advance 1).advance n).rest = rest.drop n := by rw [advance_rest, hrest]
    rw [hcarried, qualifiedTailLength_cons hn', hdrop, ih hk hcs₂ hk₂]
  | case2 rest hnone =>
    obtain ⟨hk₁, hcarried⟩ := hdot hk₀ hcs
    rw [hcarried]
    refine qualifiedTailLength_none ?_
    rw [nameLength hk₁]
    simpa [hcs] using hnone
  | case3 cs hnot =>
    refine qualifiedTailLength_nil ?_
    rw [← Cursor.next?, ne_eq, next?_iff hk₀ (by decide), Cursor.next?]
    intro h
    obtain ⟨rest, hrest⟩ := List.head?_eq_some_iff.1 h
    exact hnot rest (hcs.symm.trans hrest)

theorem qualifiedName {name : String} (h : readQualifiedName? c = some (name, c'))
    (hk : k.Known c') : readQualifiedName? (k.carry c) = some (name, k.carry c') := by
  obtain ⟨n, hn, heq⟩ := Option.map_eq_some_iff.1 h
  obtain ⟨rfl, rfl⟩ := Prod.mk.inj heq
  have hle := (nameLength?_pos hn).2
  have htail := qualifiedTailLength_le (c.rest.drop n)
  rw [List.length_drop] at htail
  have hk₁ := hk
  rw [← advance_advance] at hk₁
  have hk₂ := k.known_of_reaches hk₁ (reaches_advance _ _)
  have hdrop : (k.carry c).rest.drop n = (k.carry (c.advance n)).rest :=
    congrArg Cursor.rest (advance hle hk₂).1
  have htail' := qualifiedTailLength hk₁
  obtain ⟨hadvance, htake⟩ := advance (by omega) hk
  rw [readQualifiedName?, nameLength (k.known_of_reaches hk (reaches_advance c _)), hn,
    Option.map_some, hdrop, htail']
  dsimp only [advance_rest]
  rw [htake, hadvance]

/-! ## Expressions -/

theorem expression {stops : List Char} {text : String}
    (h : scanExpression stops c = .ok (text, c')) (hk : k.Known c')
    (hend : k.Inside c' ∨ ∀ ch, isLineEnd ch = true → ch ∈ stops) :
    scanExpression stops (k.carry c) = .ok (text, k.carry c') := by
  obtain ⟨w, n, hmoves, hpasses, hends, rfl⟩ := scanExpression_spec h
  obtain ⟨hrest, hpos⟩ := k.moves hmoves hk
  have hends' : EndsExpression stops (k.carry c').rest := by
    intro ch hch
    by_cases hseam : k.AtSeam c'
    · rcases hend with hin | hstops
      · rw [hin.2 hseam] at hch
        simp at hch
      · simp [hstops ch (k.atLineEnd hseam ch hch)]
    · rw [← Cursor.next?, next? hk hseam] at hch
      exact hends ch hch
  have := scanExpression_text (k.passes hpasses hk) hends' (k.carry c).pos
  rwa [← hrest, ← hpos] at this

theorem group (hopen : c.next? = some '(') (h : skipGroup ')' c = .ok c') (hk : k.Known c') :
    skipGroup ')' (k.carry c) = .ok (k.carry c') := by
  obtain ⟨w, n, hmoves, hpasses⟩ := skipGroup_spec hopen h
  -- the group has been passed but for its closing bracket
  let inner : Cursor := ⟨c.pos + (w.length + 1), ')' :: c'.rest⟩
  have hinner : inner.Moves [')'] c' := ⟨rfl, by rw [hmoves.2]; simp [inner]; omega⟩
  have hclose := (k.moves hinner hk).1
  have hpasses' := k.passes (c := inner) hpasses (k.known_of_reaches hk hinner.reaches)
  rw [hclose, List.singleton_append] at hpasses'
  obtain ⟨hrest, hpos⟩ := k.moves hmoves hk
  have hgroup := skipGroup_text (o := '(') hpasses' (by decide) (k.carry c).pos
  simp only [List.cons_append, List.append_assoc, List.nil_append] at hrest
  simp only [List.length_cons, List.length_append, List.length_nil, Nat.zero_add] at hpos
  rwa [← hrest, ← Nat.add_assoc w.length 1 1, ← hpos] at hgroup

/-- An expression goes on past everything that can be passed in it. -/
theorem reaches_of_passes {stops w : List Char} {n : Nat} {d : Cursor} {text : String}
    (hmoves : c.Moves w d) (hpasses : PassesExpression stops w n d.rest)
    (h : scanExpression stops c = .ok (text, c')) : d.Reaches c' := by
  unfold scanExpression at h
  split at h
  · rename_i mark c₁ hscan
    obtain ⟨-, rfl⟩ := Prod.mk.inj (Except.ok.inj h)
    obtain ⟨frames, -, hpassed⟩ :=
      @scan_passes _ _ _ _ _ hpasses [.expression stops] rfl c.pos c.pos
    rw [← hmoves.1, ← hmoves.2] at hpassed
    exact reaches_scan (hpassed.symm.trans hscan)
  · simp at h

/-! ## Attributes -/

theorem label {label : Option String} (h : readLabel c = .ok (label, c')) (hin : k.Inside c')
    (hlook : ∀ name after colon, readName? c = some (name, after) →
      skipTrivia after = .ok colon → label = none → k.Inside colon) :
    readLabel (k.carry c) = .ok (label, k.carry c') := by
  rcases readLabel_spec h with ⟨hname, rfl, rfl⟩ | ⟨word, after, colon, hname, hcolon, hlabel⟩
  · rw [readLabel, name_none hin.1 hname]
  have hin₁ : k.Inside colon := by
    rcases hlabel with ⟨-, -, hafter⟩ | ⟨-, hnone, -⟩
    · exact hin.of_reaches ((reaches_advance colon 1).trans (reaches_skipTrivia hafter))
    · exact hlook word after colon hname hcolon hnone
  have hsign : ((k.carry colon).next? = some ':' ∧
        ((k.carry colon).advance 1).next? ≠ some ':') ↔
      (colon.next? = some ':' ∧ (colon.advance 1).next? ≠ some ':') := by
    rw [next?_iff hin₁.1 (by decide)]
    refine and_congr_right fun hfirst => not_congr ?_
    obtain ⟨_, r, r', hr, hr', hsame⟩ := k.cons hin₁.1 (not_atSeam_of_next hfirst (by decide))
    rw [Cursor.next?, Cursor.next?, advance_rest, advance_rest, hr, hr']
    exact hsame ':' (by decide)
  simp only [readLabel, name hname (k.known_of_reaches hin₁.1 (reaches_skipTrivia hcolon)),
    trivia hcolon hin₁]
  rcases hlabel with ⟨hlabelled, rfl, hafter⟩ | ⟨hlabelled, rfl, rfl⟩
  · rw [if_pos (hsign.2 hlabelled),
      advance_one hlabelled.1 (k.known_of_reaches hin.1 (reaches_skipTrivia hafter)),
      trivia hafter hin]
  · rw [if_neg fun h => hlabelled (hsign.1 h)]

/-- An expression that begins with a name goes on past the trivia behind the name. -/
theorem reaches_after_name {stops : List Char} {word text : String} {after d : Cursor}
    (hname : readName? c = some (word, after)) (htrivia : skipTrivia after = .ok d)
    (hstops : ∀ ch ∈ stops, isNameChar ch = false ∧ isLayout ch = false ∧ ch ≠ '/')
    (h : scanExpression stops c = .ok (text, c')) : d.Reaches c' := by
  obtain ⟨w₁, hmoves₁, hn, -⟩ := readName?_spec hname
  obtain ⟨w₂, hmoves₂, hw, -⟩ := skipTrivia_spec htrivia
  have hadmits : ∀ p : Char → Prop, (∀ ch ∈ stops, ¬ p ch) →
      ∀ ch, p ch → (Frame.expression stops).Admits ch := fun p hp ch hch hmem => hp ch hmem hch
  have hpassesName := passes_name hn
    (hadmits (isNameChar · = true) fun ch hch => by simp [(hstops ch hch).1]) [] (w₂ ++ d.rest)
  have hpassesTrivia := passes_trivia hw
    (hadmits (isLayout · = true) fun ch hch => by simp [(hstops ch hch).2.1])
    (hadmits (· = '/') (fun ch hch => (hstops ch hch).2.2) '/' rfl) []
  exact reaches_of_passes (hmoves₁.trans hmoves₂) (hpassesName.append hpassesTrivia) h

theorem argument {a : Argument} (h : readArgument c = .ok (a, c')) (hin : k.Inside c') :
    readArgument (k.carry c) = .ok (a.moved k.offset, k.carry c') := by
  obtain ⟨c₁, hlabel, hscan, hexpression, hspan⟩ := readArgument_spec h
  have hlook : ∀ name after colon, readName? c = some (name, after) →
      skipTrivia after = .ok colon → a.label = none → k.Inside colon := by
    intro name after colon hname hcolon hnone
    -- without a label the name is where the expression begins
    obtain rfl : c₁ = c := by
      rcases readLabel_spec hlabel with ⟨-, -, hc⟩ | ⟨_, _, _, -, -, ⟨-, hsome, -⟩ | ⟨-, -, hc⟩⟩
      · exact hc
      · simp [hnone] at hsome
      · exact hc
    exact hin.of_reaches (reaches_after_name hname hcolon (by decide) hscan)
  simp only [readArgument, label hlabel (hin.of_reaches (reaches_scanExpression hscan)) hlook,
    expression hscan hin.1 (.inl hin), hexpression]
  simp [Argument.moved, Span.moved, k.carry_pos, hspan]

theorem arguments {as : List Argument} (h : readArguments c = .ok (as, c')) (hk : k.Known c') :
    readArguments (k.carry c) = .ok (as.map (Argument.moved k.offset), k.carry c') := by
  fun_induction readArguments c generalizing as c' with
  | case2 c a c₁ ha hclose =>
    obtain ⟨rfl, rfl⟩ := Prod.mk.inj (Except.ok.inj h)
    have hk₁ := known_next hk
    rw [← advance_one hclose hk]
    exact readArguments_last (argument ha (.of_next hk₁ hclose (by decide)))
      ((next?_iff hk₁ (by decide)).2 hclose)
  | case5 c a c₁ ha hclose hcomma c₂ htrivia others c₃ hrest ih =>
    obtain ⟨rfl, rfl⟩ := Prod.mk.inj (Except.ok.inj h)
    have hk₂ := k.known_of_reaches hk (reaches_readArguments hrest)
    have hk' := k.known_of_reaches hk₂ (reaches_skipTrivia htrivia)
    have hk₁ := known_next hk'
    refine readArguments_more (argument ha (.of_next hk₁ hcomma (by decide)))
      ((next?_iff hk₁ (by decide)).2 hcomma) ?_ (ih hrest hk)
    rw [advance_one hcomma hk']
    exact trivia htrivia (.of_shorter hk (reaches_readArguments hrest) (readArguments_closed hrest))
  | case1 | case3 | case4 | case6 => simp at h

theorem argumentList {as : List Argument} (hopen : c.next? = some '(')
    (h : readArgumentList c = .ok (as, c')) (hk : k.Known c') :
    readArgumentList (k.carry c) = .ok (as.map (Argument.moved k.offset), k.carry c') := by
  unfold readArgumentList at h ⊢
  cases htrivia : skipTrivia (c.advance 1) with
  | error e => simp [htrivia] at h
  | ok c₁ =>
    rw [htrivia] at h
    dsimp only at h
    have hcarried : ∀ {c₁ : Cursor}, skipTrivia (c.advance 1) = .ok c₁ → k.Inside c₁ →
        skipTrivia ((k.carry c).advance 1) = .ok (k.carry c₁) := by
      intro c₁ htrivia hin
      rw [advance_one hopen (k.known_of_reaches hin.1 (reaches_skipTrivia htrivia))]
      exact trivia htrivia hin
    by_cases hclose : c₁.next? = some ')'
    · rw [if_pos hclose] at h
      obtain ⟨rfl, rfl⟩ := Prod.mk.inj (Except.ok.inj h)
      have hk₁ := known_next hk
      rw [hcarried htrivia (.of_next hk₁ hclose (by decide))]
      dsimp only
      rw [if_pos ((next?_iff hk₁ (by decide)).2 hclose), advance_one hclose hk]
      rfl
    · rw [if_neg hclose] at h
      have hk₁ := k.known_of_reaches hk (reaches_readArguments h)
      rw [hcarried htrivia (.of_shorter hk (reaches_readArguments h) (readArguments_closed h))]
      dsimp only
      rw [if_neg fun h => hclose ((next?_iff hk₁ (by decide)).1 h)]
      exact arguments h hk

theorem oneAttribute {a : Attribute} (hat : c.next? = some '@') (h : readAttribute c = .ok (a, c'))
    (hk : k.Known c') : readAttribute (k.carry c) = .ok (a.moved k.offset, k.carry c') := by
  unfold readAttribute at h ⊢
  cases hname : readQualifiedName? (c.advance 1) with
  | none => simp [hname] at h
  | some r =>
    obtain ⟨name, c₁⟩ := r
    rw [hname] at h
    dsimp only at h
    have hcarried : k.Known c₁ →
        readQualifiedName? ((k.carry c).advance 1) = some (name, k.carry c₁) := by
      intro hk₁
      rw [advance_one hat (k.known_of_reaches hk₁ (moves_readQualifiedName? hname).reaches)]
      exact qualifiedName hname hk₁
    by_cases hopen : c₁.next? = some '('
    · rw [if_pos hopen] at h
      cases hlist : readArgumentList c₁ with
      | error e => simp [hlist] at h
      | ok r =>
        obtain ⟨arguments, c₂⟩ := r
        rw [hlist] at h
        obtain ⟨rfl, rfl⟩ := Prod.mk.inj (Except.ok.inj h)
        have hk₁ := k.known_of_reaches hk (reaches_readArgumentList hlist)
        rw [hcarried hk₁]
        dsimp only
        rw [if_pos ((next?_iff hk₁ (by decide)).2 hopen), argumentList hopen hlist hk]
        simp [Attribute.moved, Span.moved, k.carry_pos]
    · rw [if_neg hopen] at h
      obtain ⟨rfl, rfl⟩ := Prod.mk.inj (Except.ok.inj h)
      rw [hcarried hk]
      dsimp only
      rw [if_neg fun h => hopen ((next?_iff hk (by decide)).1 h)]
      simp [Attribute.moved, Span.moved, k.carry_pos]

theorem attributes {as : List Attribute} (h : readAttributes c = .ok (as, c'))
    (hin : k.Inside c') :
    readAttributes (k.carry c) = .ok (as.map (Attribute.moved k.offset), k.carry c') := by
  fun_induction readAttributes c generalizing as c' with
  | case4 c hat a c₁ ha c₂ htrivia others c₃ hrest ih =>
    obtain ⟨rfl, rfl⟩ := Prod.mk.inj (Except.ok.inj h)
    have hin₂ := hin.of_reaches (reaches_readAttributes hrest).1
    have hk₁ := k.known_of_reaches hin₂.1 (reaches_skipTrivia htrivia)
    have hk := k.known_of_reaches hk₁ (reaches_readAttribute ha)
    refine readAttributes_cons ?_ (oneAttribute hat ha hk₁) (trivia htrivia hin₂) (ih hrest hin)
    rwa [next? hk (not_atSeam hk₁ (readAttribute_shorter ha))]
  | case5 c hat =>
    obtain ⟨rfl, rfl⟩ := Prod.mk.inj (Except.ok.inj h)
    refine readAttributes_nil fun h => ?_
    by_cases hseam : k.AtSeam c
    · rw [Cursor.next?, hin.2 hseam] at h
      simp at h
    · exact hat (by rwa [next? hin.1 hseam] at h)
  | case1 | case2 | case3 => simp at h

/-! ## Modifiers -/

theorem isModifier {word : String} {b : Bool} (h : isModifier word c = .ok b)
    (hlook : word = "class" → ∀ c', skipTrivia c = .ok c' → k.Inside c') :
    isModifier word (k.carry c) = .ok b := by
  by_cases hclass : word = "class"
  · cases htrivia : skipTrivia c with
    | error e => simp [Swift.isModifier, hclass, htrivia] at h
    | ok c' =>
      have hin := hlook hclass c' htrivia
      rw [isModifier_congr htrivia (trivia htrivia hin) (k.sameName hin.1), h]
  · rw [Swift.isModifier, if_neg hclass] at h ⊢
    exact h

/-- A word is a modifier in front of another one only, and so of no argument. -/
theorem inside_of_isModifier {c₁ : Cursor} (h : Swift.isModifier "class" c = .ok true)
    (hargument : skipModifierArgument c = .ok c') (hin : k.Inside c')
    (htrivia : skipTrivia c = .ok c₁) : k.Inside c₁ := by
  have hopen : c.next? ≠ some '(' := by
    intro hopen
    obtain ⟨rest, hrest⟩ := List.head?_eq_some_iff.1 hopen
    obtain ⟨p, cs⟩ := c
    obtain rfl : cs = '(' :: rest := hrest
    have hsolid : Solid ('(' :: rest) := by
      rw [Solid] <;> simp [isLayout, isBlank, isLineEnd]
    have hnone : readName? ⟨p, '(' :: rest⟩ = none := readName?_none (by
      intro ch hch
      obtain rfl := Option.some.inj hch
      decide) p
    simp [Swift.isModifier, skipTrivia_solid hsolid, hnone] at h
  rw [skipModifierArgument, if_neg hopen, htrivia] at hargument
  obtain rfl := Except.ok.inj hargument
  exact hin

theorem modifierArgument (h : skipModifierArgument c = .ok c') (hin : k.Inside c') :
    skipModifierArgument (k.carry c) = .ok (k.carry c') := by
  have hk := k.known_of_reaches hin.1 (reaches_skipModifierArgument h)
  unfold skipModifierArgument at h ⊢
  by_cases hopen : c.next? = some '('
  · rw [if_pos hopen] at h
    rw [if_pos ((next?_iff hk (by decide)).2 hopen)]
    cases hgroup : skipGroup ')' c with
    | error e => simp [hgroup] at h
    | ok c₁ =>
      rw [hgroup] at h
      rw [group hopen hgroup (k.known_of_reaches hin.1 (reaches_skipTrivia h))]
      exact trivia h hin
  · rw [if_neg hopen] at h
    rw [if_neg fun h => hopen ((next?_iff hk (by decide)).1 h)]
    exact trivia h hin

/-- A word behind the modifiers that is not known as a whole must not turn into one. -/
theorem modifiers {ms : List String} (h : readModifiers c = .ok (ms, c')) (hin : k.Inside c')
    (hclass : ∀ after, readName? c' = some ("class", after) →
      ∃ after', readName? (k.carry c') = some ("class", after') ∧
        Swift.isModifier "class" after' = .ok false) :
    readModifiers (k.carry c) = .ok (ms, k.carry c') := by
  fun_induction readModifiers c generalizing ms c' with
  | case1 c hname =>
    obtain ⟨rfl, rfl⟩ := Prod.mk.inj (Except.ok.inj h)
    exact readModifiers_noName (name_none hin.1 hname)
  | case3 c word c₁ hname hword =>
    obtain ⟨rfl, rfl⟩ := Prod.mk.inj (Except.ok.inj h)
    by_cases hw : word = "class"
    · subst hw
      obtain ⟨after', hname', hword'⟩ := hclass c₁ hname
      exact readModifiers_nil hname' hword'
    · obtain ⟨after', hname'⟩ := name_some hin.1 hname
      refine readModifiers_nil hname' ?_
      rw [Swift.isModifier, if_neg hw] at hword ⊢
      exact hword
  | case6 c word c₁ hname hword c₂ hargument others c₃ hrest ih =>
    obtain ⟨rfl, rfl⟩ := Prod.mk.inj (Except.ok.inj h)
    have hin₂ := hin.of_reaches (reaches_readModifiers hrest)
    have hk₁ := k.known_of_reaches hin₂.1 (reaches_skipModifierArgument hargument)
    refine readModifiers_cons (name hname hk₁) (isModifier hword ?_)
      (modifierArgument hargument hin₂) (ih hrest hin hclass)
    rintro rfl d hd
    exact inside_of_isModifier hword hargument hin₂ hd
  | case2 | case4 | case5 => simp at h

/-! ## The opening of a type -/

theorem lead_type {kind : TypeKind} {after : Cursor} (h : lead c = .type kind after)
    (hk : k.Known after) : lead (k.carry c) = .type kind (k.carry after) := by
  unfold lead at h ⊢
  cases hname : readName? c with
  | none => simp [hname] at h
  | some r =>
    obtain ⟨word, after'⟩ := r
    rw [hname] at h
    dsimp only at h
    cases hkind : TypeKind.ofKeyword? word with
    | none =>
      rw [hkind] at h
      dsimp only at h
      split at h <;> simp at h
    | some kind' =>
      rw [hkind] at h
      obtain ⟨rfl, rfl⟩ := Lead.type.inj h
      rw [name hname hk]
      dsimp only
      rw [hkind]

theorem lead_cases {after : Cursor} (h : lead c = .cases after) (hk : k.Known after) :
    lead (k.carry c) = .cases (k.carry after) := by
  unfold lead at h ⊢
  cases hname : readName? c with
  | none => simp [hname] at h
  | some r =>
    obtain ⟨word, after'⟩ := r
    rw [hname] at h
    dsimp only at h
    cases hkind : TypeKind.ofKeyword? word with
    | some kind => simp [hkind] at h
    | none =>
      rw [hkind] at h
      dsimp only at h
      split at h
      · rename_i hword
        obtain rfl := Lead.cases.inj h
        rw [name hname hk]
        dsimp only
        rw [hkind]
        dsimp only
        rw [if_pos hword]
      · simp at h

theorem lead_other (h : lead c = .other) (hk : k.Known c) : lead (k.carry c) = .other := by
  unfold lead at h ⊢
  cases hname : readName? c with
  | none => rw [name_none hk hname]
  | some r =>
    obtain ⟨after', hname'⟩ := name_some hk hname
    rw [hname] at h
    rw [hname']
    dsimp only at h ⊢
    cases hkind : TypeKind.ofKeyword? r.1 with
    | some kind => simp [hkind] at h
    | none =>
      rw [hkind] at h
      dsimp only at h ⊢
      split at h
      · simp at h
      · rename_i hword
        rw [if_neg hword]

theorem generics (h : skipGenerics c = .ok c') (hk : k.Known c') :
    skipGenerics (k.carry c) = .ok (k.carry c') := by
  have hk₀ := k.known_of_reaches hk (reaches_skipGenerics h)
  unfold skipGenerics at h ⊢
  by_cases hopen : c.next? = some '<'
  · rw [if_pos hopen] at h
    rw [if_pos ((next?_iff hk₀ (by decide)).2 hopen)]
    cases hlength : genericLength? 0 0 c.rest with
    | none => simp [hlength] at h
    | some n =>
      rw [hlength] at h
      obtain rfl := Except.ok.inj h
      obtain ⟨w, r, hrest, hn, hseam⟩ := exists_generics hlength
      rw [Nat.zero_add] at hn
      subst hn
      have hmoves : c.Moves w (c.advance w.length) := by simp [Moves, Cursor.advance, hrest]
      have hcarried := k.moves hmoves hk
      rw [hcarried.1, hseam]
      dsimp only
      rw [hcarried.advance_eq]
  · rw [if_neg hopen] at h
    obtain rfl := Except.ok.inj h
    rw [if_neg fun h => hopen ((next?_iff hk (by decide)).1 h)]

/-- Whether a word comes next is decided in front of a brace behind it. -/
theorem startsWith (word : List Char) (hreaches : c.Reaches c') (hbrace : c'.next? = some '\x7b')
    (hk : k.Known c') (hword : '\x7b' ∉ word) :
    (k.carry c).startsWith word = c.startsWith word := by
  obtain ⟨w, hmoves⟩ := hreaches
  have hbrace' := (next?_iff hk (by decide)).2 hbrace
  have hseam : ∀ {d : Cursor}, d.next? = some '\x7b' → ∀ ch ∈ d.rest.head?, ch ∉ word := by
    intro d hd ch hch
    obtain rfl := Option.some.inj (hd.symm.trans hch)
    exact hword
  rw [Cursor.startsWith, Cursor.startsWith, (k.moves hmoves hk).1, hmoves.1,
    isPrefixOf_seam (hseam hbrace') (hseam hbrace)]

theorem inheritance {is : List String} (h : readInheritance c = .ok (is, c'))
    (hbrace : c'.next? = some '\x7b') (hk : k.Known c') :
    readInheritance (k.carry c) = .ok (is, k.carry c') := by
  have hk₀ := k.known_of_reaches hk (reaches_readInheritance h)
  have hin : k.Inside c' := .of_next hk hbrace (by decide)
  have hwhere := startsWith "where".toList (reaches_readInheritance h) hbrace hk (by decide)
  unfold readInheritance at h ⊢
  rw [hwhere]
  by_cases hcolon : c.next? = some ':'
  · rw [if_pos hcolon] at h
    rw [if_pos ((next?_iff hk₀ (by decide)).2 hcolon)]
    cases hscan : scanExpression ['\x7b'] (c.advance 1) with
    | error e => simp [hscan] at h
    | ok r =>
      rw [hscan] at h
      obtain ⟨rfl, rfl⟩ := Prod.mk.inj (Except.ok.inj h)
      rw [advance_one hcolon (k.known_of_reaches hk (reaches_scanExpression hscan)),
        expression hscan hk (.inl hin)]
  rw [if_neg hcolon] at h
  rw [if_neg fun h => hcolon ((next?_iff hk₀ (by decide)).1 h)]
  by_cases hstarts : c.startsWith "where".toList
  · rw [if_pos hstarts] at h ⊢
    cases hscan : scanExpression ['\x7b'] c with
    | error e => simp [hscan] at h
    | ok r =>
      rw [hscan] at h
      obtain ⟨rfl, rfl⟩ := Prod.mk.inj (Except.ok.inj h)
      rw [expression hscan hk (.inl hin)]
  · rw [if_neg hstarts] at h ⊢
    obtain ⟨rfl, rfl⟩ := Prod.mk.inj (Except.ok.inj h)
    rfl

theorem typeOpening {name : String} {inheritance : List String} {brace : Cursor}
    (h : readTypeOpening c = .ok ((name, inheritance), brace)) (hk : k.Known brace) :
    readTypeOpening (k.carry c) = .ok ((name, inheritance), k.carry brace) := by
  obtain ⟨c₁, c₂, c₃, c₄, htrivia, hname, hgenerics, htrivia', hinheritance, hbrace⟩ :=
    readTypeOpening_spec h
  have hin₄ :=
    (Inside.of_next hk hbrace (by decide)).of_reaches (reaches_readInheritance hinheritance)
  have hk₃ := k.known_of_reaches hin₄.1 (reaches_skipTrivia htrivia')
  have hk₂ := k.known_of_reaches hk₃ (reaches_skipGenerics hgenerics)
  have hin₁ := hin₄.of_reaches ((moves_readQualifiedName? hname).reaches.trans
    ((reaches_skipGenerics hgenerics).trans (reaches_skipTrivia htrivia')))
  simp only [readTypeOpening, bind, Except.bind, trivia htrivia hin₁, qualifiedName hname hk₂,
    generics hgenerics hk₃, trivia htrivia' hin₄, Carrier.inheritance hinheritance hbrace hk,
    (next?_iff hk (by decide)).2 hbrace, if_true, pure, Except.pure]

end Carrier

theorem lead_class {after : Cursor} (h : readName? c = some ("class", after)) :
    lead c = .type .classType after := by
  rw [lead, h]
  rfl

theorem ReadsOpening.carried (k : Carrier) {kind : TypeKind} {name : String}
    {attributes : List Attribute} {modifiers inheritance : List String} {brace : Cursor}
    (h : ReadsOpening c kind name attributes modifiers inheritance brace) (hk : k.Known brace) :
    ReadsOpening (k.carry c) kind name (attributes.map (Attribute.moved k.offset)) modifiers
      inheritance (k.carry brace) := by
  obtain ⟨c₁, c₂, after, hattributes, hmodifiers, hlead, hafter⟩ := h
  obtain ⟨hopening, hbrace⟩ := reaches_readTypeOpening hafter
  have hin : k.Inside after := (Carrier.Inside.of_next hk hbrace (by decide)).of_reaches hopening
  have hin₂ := hin.of_reaches (reaches_lead hlead)
  refine ⟨k.carry c₁, k.carry c₂, k.carry after,
    k.attributes hattributes (hin₂.of_reaches (reaches_readModifiers hmodifiers)),
    k.modifiers hmodifiers hin₂ ?_, k.lead_type hlead hin.1, k.typeOpening hafter hk⟩
  -- the name of a class comes after its keyword
  intro after' hclass
  obtain ⟨-, rfl⟩ := Lead.type.inj ((lead_class hclass).symm.trans hlead)
  obtain ⟨d₁, d₂, d₃, d₄, hd₁, hname, hgenerics, hd₄, hinheritance, -⟩ :=
    readTypeOpening_spec hafter
  refine ⟨k.carry after', k.name hclass hin.1,
    k.isModifier (isModifier_of_readModifiers hmodifiers hclass) fun _ c₃ htrivia => ?_⟩
  obtain rfl := Except.ok.inj (htrivia.symm.trans hd₁)
  exact (Carrier.Inside.of_next hk hbrace (by decide)).of_reaches
    ((moves_readQualifiedName? hname).reaches.trans ((reaches_skipGenerics hgenerics).trans
      ((reaches_skipTrivia hd₄).trans (reaches_readInheritance hinheritance))))

/-! ## Declarations that hold no others -/

/-- Line ends are among the stop characters. -/
theorem lineEnd_mem {stops : List Char} (h : '\n' ∈ stops ∧ '\r' ∈ stops) :
    ∀ ch, isLineEnd ch = true → ch ∈ stops := by
  intro ch hch
  simp only [isLineEnd, Bool.or_eq_true, beq_iff_eq] at hch
  rcases hch with rfl | rfl
  · exact h.1
  · exact h.2

namespace Carrier

variable {k : Carrier}

theorem associatedValues (h : skipAssociatedValues c = .ok c') (hk : k.Known c') :
    skipAssociatedValues (k.carry c) = .ok (k.carry c') := by
  have hk₀ := k.known_of_reaches hk (reaches_skipAssociatedValues h)
  unfold skipAssociatedValues at h ⊢
  by_cases hopen : c.next? = some '('
  · rw [if_pos hopen] at h
    rw [if_pos ((next?_iff hk₀ (by decide)).2 hopen)]
    cases hgroup : skipGroup ')' c with
    | error e => simp [hgroup] at h
    | ok c₁ =>
      rw [hgroup] at h
      rw [group hopen hgroup (k.known_of_reaches hk (reaches_skipInlineTrivia h))]
      exact inlineTrivia h hk
  · rw [if_neg hopen] at h
    obtain rfl := Except.ok.inj h
    rw [if_neg fun h => hopen ((next?_iff hk (by decide)).1 h)]

theorem rawValue {rawValue : Option String} (h : readRawValue c = .ok (rawValue, c'))
    (hk : k.Known c') : readRawValue (k.carry c) = .ok (rawValue, k.carry c') := by
  have hk₀ := k.known_of_reaches hk (reaches_readRawValue h)
  rcases readRawValue_spec h with ⟨hsign, rfl, rfl⟩ |
    ⟨text, c₁, c₂, hsign, hbefore, hscan, htext, hafter, rfl⟩
  · exact readRawValue_none fun h => hsign ((next?_iff hk (by decide)).1 h)
  · have hk₂ := k.known_of_reaches hk (reaches_skipInlineTrivia hafter)
    have hk₁ := k.known_of_reaches hk₂ (reaches_scanExpression hscan)
    refine readRawValue_some ((next?_iff hk₀ (by decide)).2 hsign) ?_
      (expression hscan hk₂ (.inr (lineEnd_mem (by decide)))) htext (inlineTrivia hafter hk)
    rw [advance_one hsign (k.known_of_reaches hk₁ (reaches_skipInlineTrivia hbefore))]
    exact inlineTrivia hbefore hk₁

theorem caseElement {element : CaseElement} (h : readCaseElement c = .ok (element, c'))
    (hk : k.Known c') :
    readCaseElement (k.carry c) = .ok (element.moved k.offset, k.carry c') := by
  obtain ⟨start, name, c₁, c₂, c₃, rawValue, htrivia, hname, hinline, hvalues, hraw, rfl⟩ :=
    readCaseElement_spec h
  have hk₃ := k.known_of_reaches hk (reaches_readRawValue hraw)
  have hk₂ := k.known_of_reaches hk₃ (reaches_skipAssociatedValues hvalues)
  have hk₁ := k.known_of_reaches hk₂ (reaches_skipInlineTrivia hinline)
  have hin : k.Inside start := .of_shorter hk₁ (reaches_readName? hname) (readName?_shorter hname)
  simp only [readCaseElement, trivia htrivia hin, Carrier.name hname hk₁, inlineTrivia hinline hk₂,
    associatedValues hvalues hk₃, Carrier.rawValue hraw hk]
  simp [CaseElement.moved, Span.moved, k.carry_pos]

theorem caseElements {elements : List CaseElement} (h : readCaseElements c = .ok (elements, c'))
    (hk : k.Known c') :
    readCaseElements (k.carry c)
      = .ok (elements.map (CaseElement.moved k.offset), k.carry c') := by
  fun_induction readCaseElements c generalizing elements c' with
  | case3 c e c₁ he hcomma others c₂ hrest ih =>
    obtain ⟨rfl, rfl⟩ := Prod.mk.inj (Except.ok.inj h)
    have hk' := k.known_of_reaches hk (reaches_readCaseElements hrest)
    have hk₁ := known_next hk'
    have hothers := ih hrest hk
    rw [← advance_one hcomma hk'] at hothers
    exact readCaseElements_more (caseElement he hk₁) ((next?_iff hk₁ (by decide)).2 hcomma) hothers
  | case4 c e c₁ he hcomma =>
    obtain ⟨rfl, rfl⟩ := Prod.mk.inj (Except.ok.inj h)
    exact readCaseElements_last (caseElement he hk)
      fun h => hcomma ((next?_iff hk (by decide)).1 h)
  | case1 | case2 => simp at h

theorem cases {start : Nat} {d : Declaration} (h : readCases start c = .ok (d, c'))
    (hk : k.Known c') :
    readCases (start + k.offset) (k.carry c) = .ok (d.moved k.offset, k.carry c') := by
  obtain ⟨elements, helements, rfl⟩ := readCases_spec h
  rw [readCases, caseElements helements hk]
  simp [Declaration.moved, Span.moved, k.carry_pos]

theorem other {start : Cursor} {attributes : List Attribute} {modifiers : List String}
    {d : Declaration} (hstart : start.Reaches c)
    (h : readOther start attributes modifiers c = .ok (d, c')) (hk : k.Known c') :
    readOther (k.carry start) (attributes.map (Attribute.moved k.offset)) modifiers (k.carry c)
      = .ok (d.moved k.offset, k.carry c') := by
  obtain ⟨text, hscan, hpos, rfl⟩ := readOther_spec h
  obtain ⟨w, hmoves⟩ := hstart.trans (reaches_scanExpression hscan)
  have hslice : (k.carry start).slice (k.carry c').pos = start.slice c'.pos := by
    rw [hmoves.slice, (k.moves hmoves hk).slice]
  rw [readOther_run (expression hscan hk (.inr (lineEnd_mem (by decide))))
    (by rw [k.carry_pos, k.carry_pos]; omega), hslice]
  simp [Declaration.moved, Span.moved, k.carry_pos]

end Carrier

/-- Attributes and modifiers stand between two places, with trivia behind each of them. -/
def LeadsTo (c c' : Cursor) : Prop :=
  ∃ attributes c₁ modifiers, readAttributes c = .ok (attributes, c₁) ∧
    readModifiers c₁ = .ok (modifiers, c')

/-- From the cursor on there are only attributes and modifiers, with trivia between them. -/
def onlyLeads (c : Cursor) : Bool :=
  match readAttributes c with
  | .ok (_, c₁) =>
    match readModifiers c₁ with
    | .ok (_, c₂) => c₂.atEnd
    | .error _ => false
  | .error _ => false

theorem LeadsTo.onlyLeads (h : LeadsTo c c') (hend : c'.rest = []) : onlyLeads c = true := by
  obtain ⟨attributes, c₁, modifiers, hattributes, hmodifiers⟩ := h
  simp [Swift.onlyLeads, hattributes, hmodifiers, Cursor.atEnd, hend]

theorem ReadsLeaf.carried (k : Carrier) {d : Declaration} (h : ReadsLeaf c d c') (hk : k.Known c')
    (hbare : ∀ c₂, LeadsTo c c₂ → k.AtSeam c₂ → k.Inside c') :
    ReadsLeaf (k.carry c) (d.moved k.offset) (k.carry c') := by
  cases h with
  | other hattributes hmodifiers hlead hother =>
    rename_i c₁ c₂ attributes modifiers
    have hk₂ := k.known_of_reaches hk (reaches_readOther hother)
    have hin₂ : k.Inside c₂ := by
      by_cases hseam : k.AtSeam c₂
      · exact (hbare c₂ ⟨_, _, _, hattributes, hmodifiers⟩ hseam).of_reaches
          (reaches_readOther hother)
      · exact .of_not_atSeam hk₂ hseam
    refine .other (k.attributes hattributes (hin₂.of_reaches (reaches_readModifiers hmodifiers)))
      (k.modifiers hmodifiers hin₂ ?_) (k.lead_other hlead hk₂) (k.other ?_ hother hk)
    · intro after hclass
      simp [lead_class hclass] at hlead
    · exact (reaches_readAttributes hattributes).1.trans (reaches_readModifiers hmodifiers)
  | cases hattributes hmodifiers hlead hcases =>
    rename_i c₁ c₂ after attributes modifiers
    have hk' := k.known_of_reaches hk (reaches_readCases hcases)
    have hin₂ : k.Inside c₂ :=
      .of_shorter hk' (reaches_lead_cases hlead) (lead_cases_shorter hlead)
    refine .cases (k.attributes hattributes (hin₂.of_reaches (reaches_readModifiers hmodifiers)))
      (k.modifiers hmodifiers hin₂ ?_) (k.lead_cases hlead hk') ?_
    · intro after' hclass
      simp [lead_class hclass] at hlead
    · rw [k.carry_pos]
      exact k.cases hcases hk

/-! ## Forests -/

theorem AtDeclaration.carried (k : Carrier) {closing : Option Char} (h : AtDeclaration closing c)
    (hk : k.Known c) (hseam : ¬k.AtSeam c) : AtDeclaration closing (k.carry c) := by
  obtain ⟨ch, r, r', hr, hr', -⟩ := k.cons hk hseam
  have hnext := k.next? hk hseam
  exact ⟨by rw [hnext]; exact h.notClosing, by simp [hr'], by rw [hnext]; exact h.notSemicolon⟩

theorem Reads.semicolon_carried (k : Carrier) {limit : Int} {levels : Nat} {closing : Option Char}
    {c₁ e : Cursor} {es : List Declaration} (htrivia : skipTrivia c = .ok c₁)
    (hclosing : c₁.next? ≠ closing) (hsemicolon : c₁.next? = some ';')
    (hk : k.Known (c₁.advance 1))
    (hrest : Reads limit levels closing (k.carry (c₁.advance 1)) es e) :
    Reads limit levels closing (k.carry c) es e := by
  have hin₁ := Carrier.Inside.of_advance hk hsemicolon
  have hnext := k.next? hin₁.1 (k.not_atSeam_of_next hsemicolon (by decide))
  rw [← k.advance_one hsemicolon hk] at hrest
  exact .semicolon (k.trivia htrivia hin₁) (by rwa [hnext]) (by rwa [hnext]) hrest

theorem Reads.leaf_carried (k : Carrier) {limit : Int} {levels : Nat} {closing : Option Char}
    {c₁ c₂ e : Cursor} {d : Declaration} {es : List Declaration} (htrivia : skipTrivia c = .ok c₁)
    (hat : AtDeclaration closing c₁) (hleaf : ReadsLeaf c₁ d c₂)
    (hshorter : c₂.rest.length < c₁.rest.length) (hk : k.Known c₂)
    (hbare : ∀ c', LeadsTo c₁ c' → k.AtSeam c' → k.Inside c₂)
    (hrest : Reads limit levels closing (k.carry c₂) es e) :
    Reads limit levels closing (k.carry c) (d.moved k.offset :: es) e := by
  have hreaches := reaches_readsLeaf hleaf
  have hin₁ := Carrier.Inside.of_shorter hk hreaches hshorter
  exact .leaf (k.trivia htrivia hin₁) (hat.carried k hin₁.1 (k.not_atSeam hk hshorter))
    (hleaf.carried k hk hbare) (k.carried_shorter hk hreaches hshorter) hrest

theorem Reads.type_carried (k : Carrier) {limit : Int} {levels : Nat} {closing : Option Char}
    {c₁ brace close e : Cursor} {kind : TypeKind} {name : String} {attributes : List Attribute}
    {modifiers inheritance : List String} {members es : List Declaration}
    (htrivia : skipTrivia c = .ok c₁) (hat : AtDeclaration closing c₁)
    (hopening : ReadsOpening c₁ kind name attributes modifiers inheritance brace)
    (hmembers : Reads limit levels (some '\x7d') (brace.advance 1) members close)
    (hk : k.Known (close.advance 1))
    (hmembers' : Reads limit levels (some '\x7d') (k.carry (brace.advance 1))
      (movedAll k.offset members) (k.carry close))
    (hrest' : Reads limit (levels + 1) closing (k.carry (close.advance 1)) es e) :
    Reads limit (levels + 1) closing (k.carry c)
      ((Declaration.type { kind, name, attributes, modifiers, inheritance,
                           span := ⟨c₁.pos, (close.advance 1).pos⟩,
                           body := ⟨brace.pos, (close.advance 1).pos⟩ } members).moved k.offset
        :: es) e := by
  have hclose := hmembers.next?
  have hk₂ := k.known_of_reaches (k.known_next hk) hmembers.reaches
  have hin₁ := Carrier.Inside.of_shorter hk₂ ((reaches_readsOpening hopening).1.trans
    (reaches_advance brace 1)) hopening.body_shorter
  rw [← k.advance_one (reaches_readsOpening hopening).2.1 hk₂] at hmembers'
  rw [← k.advance_one hclose hk] at hrest'
  have htype := Reads.of_opening (k.trivia htrivia hin₁)
    (hat.carried k hin₁.1 (k.not_atSeam hk₂ hopening.body_shorter)) (hopening.carried k (k.known_next hk₂)) hmembers' hrest'
  rw [k.advance_one hclose hk, k.carry_pos, k.carry_pos, k.carry_pos] at htype
  exact htype

/-- What is read from a text in front of what is different is read from the other text too. -/
theorem Reads.carried (k : Carrier) {limit : Int} {levels : Nat} {closing : Option Char}
    {ds : List Declaration} (h : Reads limit levels closing c ds c') (hin : k.Inside c')
    (hnext : (k.carry c').next? = c'.next?) :
    Reads limit levels closing (k.carry c) (movedAll k.offset ds) (k.carry c') := by
  induction h with
  | done htrivia hclosing =>
    exact .done (k.trivia htrivia hin) (by rw [hnext, hclosing])
  | semicolon htrivia hclosing hsemicolon hrest ih =>
    exact .semicolon_carried k htrivia hclosing hsemicolon (hin.of_reaches hrest.reaches).1
      (ih hin hnext)
  | leaf htrivia hat hleaf hshorter hrest ih =>
    have hin₂ := hin.of_reaches hrest.reaches
    exact .leaf_carried k htrivia hat hleaf hshorter hin₂.1 (fun _ _ _ => hin₂) (ih hin hnext)
  | type htrivia hat hopening _ hmembers hrest ihMembers ih =>
    have hk := (hin.of_reaches hrest.reaches).1
    have hclose := hmembers.next?
    exact .type_carried k htrivia hat hopening hmembers hk
      (ihMembers (.of_advance hk hclose)
        (k.next? (k.known_next hk) (k.not_atSeam hk (advance_shorter hclose)))) (ih hin hnext)

end Swift

end LocalizedKeys
