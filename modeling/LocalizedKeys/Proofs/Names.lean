import LocalizedKeys.Swift.Name
import LocalizedKeys.Proofs.Trivia

/-!
# Texts that are read as names

`IsName n` says of a text that it is a name, `DottedName q` that it is names joined by dots. The
readers take such a text as a whole as soon as what follows cannot prolong it, and take nothing
else. No character of a name is white space or has a meaning in an expression.
-/

namespace LocalizedKeys.Swift

open Text

/-! ## Characters of names -/

/-- The code points of white space beyond ASCII. -/
def wideSpaces : List Nat :=
  [0x85, 0xA0, 0x1680, 0x2000, 0x2001, 0x2002, 0x2003, 0x2004, 0x2005, 0x2006, 0x2007, 0x2008,
    0x2009, 0x200A, 0x2028, 0x2029, 0x202F, 0x205F, 0x3000]

theorem mem_wideSpaces {c : Char} (h : isSpace c = true) (hc : 128 ≤ c.toNat) :
    c.toNat ∈ wideSpaces := by
  simp only [isSpace, Bool.or_eq_true, Bool.and_eq_true, decide_eq_true_eq, beq_iff_eq] at h
  simp only [wideSpaces, List.mem_cons, List.not_mem_nil, or_false]
  omega

theorem letterRanges_wideSpaces : ∀ n ∈ wideSpaces, letterRanges.contains n = false := by
  decide +kernel

theorem numberRanges_wideSpaces : ∀ n ∈ wideSpaces, numberRanges.contains n = false := by
  decide

theorem isNamePart_control : ∀ n < 33, isNamePart (Char.ofNat n) = false := by decide

/-- White space has no part in names. -/
theorem isNamePart_of_isSpace {c : Char} (h : isSpace c = true) : isNamePart c = false := by
  rcases Nat.lt_or_ge c.toNat 128 with hlow | hhigh
  · have hsmall : c.toNat ≤ 32 := by
      simp only [isSpace, Bool.or_eq_true, Bool.and_eq_true, decide_eq_true_eq, beq_iff_eq] at h
      omega
    rw [← Char.ofNat_toNat c]
    exact isNamePart_control c.toNat (by omega)
  · have hmem := mem_wideSpaces h hhigh
    have hunder : (c == '_') = false := by
      rw [beq_eq_false_iff_ne]
      rintro rfl
      exact absurd hhigh (by decide)
    simp [isNamePart, isLetter, isNumber, Nat.not_lt.2 hhigh, letterRanges_wideSpaces _ hmem,
      numberRanges_wideSpaces _ hmem, hunder]

theorem isNamePart_of_isNameStart {c : Char} (h : isNameStart c = true) : isNamePart c = true := by
  simp only [isNameStart, Bool.or_eq_true] at h
  rcases h with h | h <;> simp [isNamePart, h]

theorem ne_of_isNamePart {c d : Char} (h : isNamePart c = true) (hd : isNamePart d = false) :
    c ≠ d := by
  rintro rfl
  simp [h] at hd

/-! ## Names -/

/-- A letter or underscore followed by letters, numbers and underscores. -/
def PlainName (cs : List Char) : Prop :=
  ∃ c rest, cs = c :: rest ∧ isNameStart c = true ∧ ∀ x ∈ rest, isNamePart x = true

instance : DecidablePred PlainName := fun cs =>
  match cs with
  | [] => isFalse fun ⟨_, _, h, _⟩ => List.cons_ne_nil _ _ h.symm
  | c :: rest =>
    decidable_of_iff (isNameStart c = true ∧ ∀ x ∈ rest, isNamePart x = true)
      ⟨fun h => ⟨c, rest, rfl, h⟩, fun ⟨_, _, heq, h⟩ => by
        obtain ⟨rfl, rfl⟩ := List.cons.inj heq
        exact h⟩

/-- A plain name, or one between backticks. -/
def IsName (cs : List Char) : Prop :=
  PlainName cs ∨ ∃ plain, PlainName plain ∧ cs = backtick :: (plain ++ [backtick])

/-- What follows does not prolong a name. -/
def NameEnd (r : List Char) : Prop := ∀ ch ∈ r.head?, isNamePart ch = false

theorem NameEnd.cons {c : Char} (r : List Char) (h : isNamePart c = false) :
    NameEnd (c :: r) := by
  intro x hx
  obtain rfl := Option.some.inj hx
  exact h

theorem PlainName.all {cs : List Char} (h : PlainName cs) : ∀ x ∈ cs, isNamePart x = true := by
  obtain ⟨c, rest, rfl, hc, hrest⟩ := h
  intro x hx
  rcases List.mem_cons.1 hx with rfl | hx
  · exact isNamePart_of_isNameStart hc
  · exact hrest x hx

theorem PlainName.ne_nil {cs : List Char} (h : PlainName cs) : cs ≠ [] := by
  obtain ⟨c, rest, rfl, -, -⟩ := h
  exact List.cons_ne_nil c rest

theorem IsName.ne_nil {cs : List Char} (h : IsName cs) : cs ≠ [] := by
  rcases h with h | ⟨plain, -, rfl⟩
  · exact h.ne_nil
  · exact List.cons_ne_nil _ _

theorem plainNameLength?_append {n r : List Char} (h : PlainName n) (hr : NameEnd r) :
    plainNameLength? (n ++ r) = some n.length := by
  obtain ⟨c, rest, rfl, hc, hrest⟩ := h
  rw [List.cons_append, plainNameLength?, if_pos hc, takeWhile_append_of_all hrest hr]
  rfl

theorem isNamePart_backtick : isNamePart backtick = false := by decide

/-- A name is read as a whole. -/
theorem nameLength?_append {n r : List Char} (h : IsName n)
    (hr : PlainName n → NameEnd r) : nameLength? (n ++ r) = some n.length := by
  rcases h with hplain | ⟨plain, hplain, rfl⟩
  · have hlen := plainNameLength?_append hplain (hr hplain)
    obtain ⟨c, rest, rfl, hc, -⟩ := hplain
    have hne : c ≠ backtick := ne_of_isNamePart (isNamePart_of_isNameStart hc) isNamePart_backtick
    rw [List.cons_append] at hlen ⊢
    rw [nameLength?, if_neg hne, hlen]
  · have hlen := plainNameLength?_append hplain (.cons r isNamePart_backtick)
    simp only [List.cons_append, List.append_assoc, List.nil_append]
    rw [nameLength?, if_pos rfl, hlen]
    simp

theorem readName?_append {n r : List Char} (h : IsName n) (hr : NameEnd r) (p : Nat) :
    readName? ⟨p, n ++ r⟩ = some (String.ofList n, ⟨p + n.length, r⟩) := by
  rw [readName?, nameLength?_append h fun _ => hr]
  simp only [Option.map_some, List.take_left, Cursor.advance_append]

/-- Where neither a letter, an underscore nor a backtick comes next there is no name. -/
theorem nameLength?_none {r : List Char}
    (h : ∀ ch ∈ r.head?, isNameStart ch = false ∧ ch ≠ backtick) : nameLength? r = none := by
  cases r with
  | nil => rfl
  | cons ch rest =>
    obtain ⟨hstart, hne⟩ := h ch rfl
    rw [nameLength?, if_neg hne, plainNameLength?, if_neg (by simp [hstart])]

theorem readName?_none {r : List Char}
    (h : ∀ ch ∈ r.head?, isNameStart ch = false ∧ ch ≠ backtick) (p : Nat) :
    readName? ⟨p, r⟩ = none := by
  rw [readName?, nameLength?_none h]
  rfl

theorem plainNameLength?_spec {cs : List Char} {n : Nat} (h : plainNameLength? cs = some n) :
    ∃ plain r, cs = plain ++ r ∧ plain.length = n ∧ PlainName plain ∧ NameEnd r := by
  cases cs with
  | nil => simp [plainNameLength?] at h
  | cons c rest =>
    simp only [plainNameLength?, Option.ite_none_right_eq_some, Option.some.injEq] at h
    obtain ⟨hc, rfl⟩ := h
    refine ⟨c :: rest.takeWhile isNamePart, rest.dropWhile isNamePart, ?_, rfl, ?_, ?_⟩
    · rw [List.cons_append, List.takeWhile_append_dropWhile]
    · exact ⟨c, _, rfl, hc, fun x hx => List.all_eq_true.1 (List.all_takeWhile (l := rest)) x hx⟩
    · intro ch hch
      have := List.head?_dropWhile_not isNamePart rest
      rw [Option.mem_def.1 hch] at this
      simpa using this

/-- Nothing but names is read. -/
theorem nameLength?_spec {cs : List Char} {n : Nat} (h : nameLength? cs = some n) :
    ∃ name r, cs = name ++ r ∧ name.length = n ∧ IsName name ∧ (PlainName name → NameEnd r) := by
  cases cs with
  | nil => simp [nameLength?] at h
  | cons c rest =>
    rw [nameLength?] at h
    by_cases hc : c = backtick
    · rw [if_pos hc] at h
      split at h
      · rename_i m hm
        obtain ⟨plain, r, rfl, rfl, hplain, -⟩ := plainNameLength?_spec hm
        simp only [List.drop_left, Option.ite_none_right_eq_some, Option.some.injEq] at h
        obtain ⟨hclose, rfl⟩ := h
        cases r with
        | nil => simp at hclose
        | cons d r =>
          obtain rfl := Option.some.inj hclose
          refine ⟨backtick :: (plain ++ [backtick]), r, by simp [hc], by simp, ?_, ?_⟩
          · exact .inr ⟨plain, hplain, rfl⟩
          · rintro hname
            have := hname.all backtick List.mem_cons_self
            simp [isNamePart_backtick] at this
      · simp at h
    · rw [if_neg hc] at h
      obtain ⟨plain, r, hcs, hlen, hplain, hr⟩ := plainNameLength?_spec h
      exact ⟨plain, r, hcs, hlen, .inl hplain, fun _ => hr⟩

theorem readName?_spec {c c' : Cursor} {name : String} (h : readName? c = some (name, c')) :
    ∃ n, c.Moves n c' ∧ IsName n ∧ name = String.ofList n := by
  obtain ⟨k, hk, heq⟩ := Option.map_eq_some_iff.1 h
  obtain ⟨rfl, rfl⟩ := Prod.mk.inj heq
  obtain ⟨n, r, hcs, rfl, hn, -⟩ := nameLength?_spec hk
  refine ⟨n, ?_, hn, by rw [hcs, List.take_left]⟩
  simp [Cursor.Moves, Cursor.advance, hcs]

/-! ## Dotted names -/

/-- Names joined by dots. -/
inductive DottedName : List Char → Prop
  | one {n : List Char} : IsName n → DottedName n
  | more {n q : List Char} : IsName n → DottedName q → DottedName (n ++ '.' :: q)

/-- What follows does not prolong a dotted name. -/
def DottedEnd (r : List Char) : Prop := NameEnd r ∧ r.head? ≠ some '.'

theorem qualifiedTailLength_nil {r : List Char} (h : r.head? ≠ some '.') :
    qualifiedTailLength r = 0 := by
  unfold qualifiedTailLength
  split
  · simp at h
  · rfl

theorem qualifiedTailLength_cons {r : List Char} {k : Nat} (h : nameLength? r = some k) :
    qualifiedTailLength ('.' :: r) = k + 1 + qualifiedTailLength (r.drop k) := by
  rw [qualifiedTailLength]
  split
  · rename_i n hn
    rw [h] at hn
    obtain rfl := Option.some.inj hn
    rfl
  · rename_i hn
    simp [h] at hn

theorem qualifiedTailLength_none {r : List Char} (h : nameLength? r = none) :
    qualifiedTailLength ('.' :: r) = 0 := by
  rw [qualifiedTailLength]
  split
  · rename_i n hn
    simp [h] at hn
  · rfl

theorem qualifiedTailLength_le (cs : List Char) : qualifiedTailLength cs ≤ cs.length := by
  fun_induction qualifiedTailLength cs with
  | case1 rest n hn ih =>
    have := nameLength?_pos hn
    rw [List.length_drop] at ih
    rw [List.length_cons]
    omega
  | case2 => exact Nat.zero_le _
  | case3 => exact Nat.zero_le _

theorem DottedName.length {q r : List Char} (h : DottedName q) (hr : DottedEnd r) :
    ∃ k, nameLength? (q ++ r) = some k ∧ k + qualifiedTailLength ((q ++ r).drop k) = q.length := by
  induction h with
  | @one n hn =>
    refine ⟨n.length, nameLength?_append hn fun _ => hr.1, ?_⟩
    rw [List.drop_left, qualifiedTailLength_nil hr.2, Nat.add_zero]
  | @more n q hn _ ih =>
    obtain ⟨k, hk, hlen⟩ := ih
    have hdot : NameEnd ('.' :: (q ++ r)) := .cons _ (by decide)
    refine ⟨n.length, ?_, ?_⟩
    · rw [List.append_assoc, List.cons_append]
      exact nameLength?_append hn fun _ => hdot
    · rw [List.append_assoc, List.cons_append, List.drop_left, qualifiedTailLength_cons hk]
      simp only [List.length_append, List.length_cons]
      omega

/-- A dotted name is read as a whole. -/
theorem readQualifiedName?_append {q r : List Char} (h : DottedName q) (hr : DottedEnd r)
    (p : Nat) : readQualifiedName? ⟨p, q ++ r⟩ = some (String.ofList q, ⟨p + q.length, r⟩) := by
  obtain ⟨k, hk, hlen⟩ := h.length hr
  rw [readQualifiedName?, hk]
  simp only [Option.map_some, hlen, List.take_left, Cursor.advance_append]

end LocalizedKeys.Swift
