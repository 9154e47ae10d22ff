import LocalizedKeys.Proofs.Pieces

/-!
# What a passage owes to the text behind it

A step of the pass over expressions looks at more than it passes: the delimiter of a literal is
compared with what comes next, and a slash may begin a comment. So a passage depends on the text
behind it in few ways only. That text can be left out. Where neither a quote nor a hash mark comes
next (`Quiet`), it can also be replaced by any text that begins with none of these, nor with a slash
or an asterisk (`Firm`). The exception is a line comment at the end of what is passed, which has to
be followed by a line end.
-/

namespace LocalizedKeys.Swift

open Text

/-- What comes next is no part of the delimiter of a literal. -/
def Quiet (r : List Char) : Prop := ∀ ch ∈ r.head?, ch ≠ '"' ∧ ch ≠ '#'

/-- What comes next is no part of the delimiter of a literal or a comment. -/
def Firm (r : List Char) : Prop := ∀ ch ∈ r.head?, ch ∉ ['"', '#', '/', '*']

theorem Firm.quiet {r : List Char} (h : Firm r) : Quiet r := by
  intro ch hch
  have := h ch hch
  simp only [List.mem_cons, not_or] at this
  exact ⟨this.1, this.2.1⟩

theorem Firm.cons {ch : Char} (h : ch ∉ ['"', '#', '/', '*']) (r : List Char) : Firm (ch :: r) := by
  intro x hx
  obtain rfl := Option.some.inj hx
  exact h

/-- `r'` may stand behind a seam in place of `r`. Nothing at all may always do so; another text may
where neither of the two is part of a delimiter. -/
def Replaces (r r' : List Char) : Prop := r' = [] ∨ Quiet r ∧ Firm r'

theorem Replaces.firm {r r' : List Char} (h : Replaces r r') : Firm r' := by
  rcases h with rfl | ⟨-, hr'⟩
  · exact fun ch hch => absurd hch nofun
  · exact hr'

variable {s r r' : List Char}

/-! ## Lookahead -/

/-- Whether a word comes first is not decided behind a seam at which the word cannot go on. -/
theorem isPrefixOf_seam {word : List Char} (hr : ∀ ch ∈ r.head?, ch ∉ word)
    (hr' : ∀ ch ∈ r'.head?, ch ∉ word) : word.isPrefixOf (s ++ r) = word.isPrefixOf (s ++ r') := by
  have hnone : ∀ {a : Char} {word r : List Char}, (∀ ch ∈ r.head?, ch ∉ a :: word) →
      (a :: word).isPrefixOf r = false := by
    intro a word r hr
    cases r with
    | nil => rfl
    | cons ch r =>
      have hne : a ≠ ch := fun h => hr ch rfl (by simp [h])
      simp [List.isPrefixOf_cons_cons, hne]
  induction s generalizing word with
  | nil =>
    cases word with
    | nil => simp
    | cons a word => rw [List.nil_append, List.nil_append, hnone hr, hnone hr']
  | cons ch s ih =>
    cases word with
    | nil => simp
    | cons a word =>
      rw [List.cons_append, List.cons_append, List.isPrefixOf_cons_cons,
        List.isPrefixOf_cons_cons,
        ih (fun x hx hmem => hr x hx (List.mem_cons_of_mem _ hmem))
          fun x hx hmem => hr' x hx (List.mem_cons_of_mem _ hmem)]

/-- Whether a delimiter comes first is not decided behind the seam, if none is found to reach over
it. -/
theorem isPrefixOf_replaces {word : List Char} (hr : Replaces r r')
    (hword : ∀ ch ∈ word, ch = '"' ∨ ch = '#')
    (hinside : word.isPrefixOf (s ++ r) = true → word.length ≤ s.length) :
    word.isPrefixOf (s ++ r) = word.isPrefixOf (s ++ r') := by
  rcases hr with rfl | ⟨hr, hr'⟩
  · rw [List.append_nil, Bool.eq_iff_iff]
    constructor
    · intro h
      have hle := hinside h
      rw [List.isPrefixOf_iff_prefix] at h ⊢
      exact List.prefix_of_prefix_length_le h (List.prefix_append s r) hle
    · intro h
      rw [List.isPrefixOf_iff_prefix] at h ⊢
      exact h.trans (List.prefix_append s r)
  · have hnone : ∀ {r : List Char}, Quiet r → ∀ ch ∈ r.head?, ch ∉ word := by
      intro r hr ch hch hmem
      rcases hword ch hmem with heq | heq
      · exact (hr ch hch).1 heq
      · exact (hr ch hch).2 heq
    exact isPrefixOf_seam (hnone hr) (hnone hr'.quiet)

theorem takeWhile_seam {p : Char → Bool} (hr : ∀ ch ∈ r.head?, p ch = false) :
    (s ++ r).takeWhile p = s.takeWhile p := by
  induction s with
  | cons ch s ih => simp only [List.cons_append, List.takeWhile_cons, ih]
  | nil =>
    cases r with
    | nil => rfl
    | cons ch r => simp [hr ch rfl]

theorem opensLiteral_seam (hr : Quiet r) (hr' : Quiet r') (c : Char) :
    opensLiteral c (s ++ r) = opensLiteral c (s ++ r') := by
  cases s with
  | cons => rfl
  | nil =>
    have hnone : ∀ {r : List Char}, Quiet r →
        (r.head? == some '"' || r.head? == some '#') = false := by
      intro r hr
      cases r with
      | nil => rfl
      | cons ch r => simp [hr ch rfl]
    rw [opensLiteral, opensLiteral, List.nil_append, List.nil_append, hnone hr, hnone hr']

theorem openLiteral?_seam (hr : Quiet r) (hr' : Quiet r') (pos : Nat) :
    openLiteral? pos (s ++ r) = openLiteral? pos (s ++ r') := by
  have hhash : ∀ {r : List Char}, Quiet r → ∀ ch ∈ r.head?, (ch == '#') = false := by
    intro r hr ch hch
    simp [(hr ch hch).2]
  have hquotes : ∀ {r : List Char}, Quiet r → ∀ n, ∀ ch ∈ r.head?, ch ∉ List.replicate n '"' := by
    intro r hr n ch hch hmem
    exact (hr ch hch).1 (List.eq_of_mem_replicate hmem)
  have hle : (s.takeWhile (· == '#')).length ≤ s.length := (List.takeWhile_prefix _).length_le
  rw [openLiteral?_eq, openLiteral?_eq, takeWhile_seam (hhash hr), takeWhile_seam (hhash hr')]
  dsimp only
  rw [List.drop_append_of_le_length hle, List.drop_append_of_le_length hle,
    isPrefixOf_seam (hquotes hr 3) (hquotes hr' 3), isPrefixOf_seam (hquotes hr 1) (hquotes hr' 1)]

/-- A delimiter that ends in front of the seam is found without what stands behind it. -/
theorem openLiteral?_front {pos n : Nat} {l : OpenLiteral} (h : openLiteral? pos (s ++ r) = some (l, n))
    (hn : n ≤ s.length) : openLiteral? pos s = some (l, n) := by
  rw [openLiteral?_eq] at h ⊢
  dsimp only at h ⊢
  have hhashes : ((s ++ r).takeWhile (· == '#')).length < n := by
    split at h
    · obtain ⟨-, rfl⟩ := Prod.mk.inj (Option.some.inj h)
      omega
    · split at h
      · obtain ⟨-, rfl⟩ := Prod.mk.inj (Option.some.inj h)
        omega
      · simp at h
  have htake : (s ++ r).takeWhile (· == '#') = s.takeWhile (· == '#') := by
    rw [List.takeWhile_append] at hhashes ⊢
    split at hhashes
    · rw [List.length_append] at hhashes
      omega
    · rename_i hall
      rw [if_neg hall]
  rw [htake] at h hhashes
  generalize (s.takeWhile (· == '#')).length = hashes at h hhashes
  rw [List.drop_append_of_le_length (by omega)] at h
  have hquotes : ∀ k, ((List.replicate k '"').isPrefixOf (s.drop hashes ++ r) = true → hashes + k = n) →
      (List.replicate k '"').isPrefixOf (s.drop hashes ++ r)
        = (List.replicate k '"').isPrefixOf (s.drop hashes) := by
    intro k hk
    rw [← List.append_nil (s.drop hashes), List.append_assoc, List.nil_append]
    refine isPrefixOf_replaces (.inl rfl) (fun ch hch => .inl (List.eq_of_mem_replicate hch)) ?_
    intro hquote
    have := hk hquote
    rw [List.length_replicate, List.length_drop]
    omega
  rw [hquotes 3] at h
  · by_cases hthree : (List.replicate 3 '"').isPrefixOf (s.drop hashes) = true
    · rw [if_pos hthree] at h ⊢
      exact h
    rw [if_neg hthree] at h ⊢
    rw [hquotes 1] at h
    · exact h
    · intro hone
      rw [if_pos hone] at h
      exact (Prod.mk.inj (Option.some.inj h)).2
  · intro hthree
    rw [if_pos hthree] at h
    exact (Prod.mk.inj (Option.some.inj h)).2

theorem commentLength?_seam {n : Nat} (h : commentLength? 1 0 (s ++ r) = some n)
    (hn : n ≤ s.length) (r' : List Char) : commentLength? 1 0 (s ++ r') = some n := by
  obtain ⟨k, hk, -, htake⟩ := commentLength?_take h
  rw [Nat.zero_add] at hk
  subst hk
  rw [List.take_append_of_le_length hn] at htake
  have := commentLength?_append (s.drop n ++ r') htake
  rwa [← List.append_assoc, List.take_append_drop] at this

theorem lineLength_seam (h : lineLength (s ++ r) ≤ s.length)
    (hline : lineLength (s ++ r) < s.length ∨ (AtLineEnd r → AtLineEnd r')) :
    lineLength (s ++ r') = lineLength (s ++ r) := by
  have hsplit : ∀ x : List Char, lineLength (s ++ x) =
      if lineLength s = s.length then s.length + lineLength x else lineLength s := by
    intro x
    unfold lineLength
    rw [List.takeWhile_append]
    split
    · rw [List.length_append]
    · rfl
  have hend : ∀ x : List Char, AtLineEnd x ↔ lineLength x = 0 := by
    intro x
    cases x with
    | nil => simp [AtLineEnd, lineLength]
    | cons ch x =>
      cases hch : isLineEnd ch <;> simp [AtLineEnd, lineLength, hch]
  rw [hsplit] at h hline ⊢
  rw [hsplit]
  by_cases hs : lineLength s = s.length
  · rw [if_pos hs] at h hline ⊢
    rw [if_pos hs, (hend r').1 (hline.resolve_left (by omega) ((hend r).2 (by omega)))]
    omega
  · rw [if_neg hs, if_neg hs]

/-! ## Trivia -/

theorem Trivia.seam {w : List Char} (h : Trivia w r) (hr : AtLineEnd r → AtLineEnd r') :
    Trivia w r' := by
  have hbehind : ∀ {w : List Char}, AtLineEnd (w ++ r) → AtLineEnd (w ++ r') := by
    intro w hend
    cases w with
    | nil => exact hr hend
    | cons ch w => exact hend
  induction h with
  | nil => exact .nil
  | layout hch _ ih => exact .layout hch (ih hr hbehind)
  | line hline hend _ ih => exact .line hline (hbehind hend) (ih hr hbehind)
  | block hbody _ ih => exact .block hbody (ih hr hbehind)

theorem InlineTrivia.seam {w : List Char} (h : InlineTrivia w r)
    (hr : AtLineEnd r → AtLineEnd r') : InlineTrivia w r' := by
  induction h with
  | nil => exact .nil
  | blank hch _ ih => exact .blank hch (ih hr)
  | line hline hend => exact .line hline (hr hend)
  | block hbody _ ih => exact .block hbody (ih hr)

/-- May come next where a text is cut: what separates declarations, what begins an attribute and
what ends a body. -/
def isSoft (ch : Char) : Bool := isLayout ch || ch == '@' || ch == '\x7d'

theorem isSoft_of_isLayout {ch : Char} (h : isLayout ch = true) : isSoft ch = true := by
  simp [isSoft, h]

/-- Something soft comes next, or nothing. -/
def SoftHead (r : List Char) : Prop := ∀ ch ∈ r.head?, isSoft ch = true

theorem AtLineEnd.softHead (h : AtLineEnd r) : SoftHead r :=
  fun ch hch => isSoft_of_isLayout (isLayout_of_isLineEnd (h ch hch))

theorem SoftHead.firm (h : SoftHead r) : Firm r := by
  intro ch hch hmem
  have hall : ∀ ch ∈ ['"', '#', '/', '*'], isSoft ch = false := by decide
  have := h ch hch
  simp [hall ch hmem] at this

/-- Two texts that go on in the same way, unless something soft comes next in one of them. -/
def SameNext (r r' : List Char) : Prop :=
  ∀ ch, isSoft ch = false → (r'.head? = some ch ↔ r.head? = some ch)

/-- Two texts with the same front go on in the same way. -/
theorem sameNext_append (hr : SoftHead r) (hr' : SoftHead r') (u : List Char) :
    SameNext (u ++ r) (u ++ r') := by
  have hnone : ∀ {r : List Char}, SoftHead r → ∀ ch, isSoft ch = false → r.head? ≠ some ch := by
    intro r hr ch hch hhead
    simp [hr ch hhead] at hch
  intro ch hch
  cases u with
  | nil => exact iff_of_false (hnone hr' ch hch) (hnone hr ch hch)
  | cons d u => rfl

theorem SameNext.eq_cons {ch : Char} {rest : List Char} (h : SameNext r (ch :: rest))
    (hch : isSoft ch = false) : ∃ rest', r = ch :: rest' :=
  List.head?_eq_some_iff.1 ((h ch hch).1 rfl)

theorem Solid.of_sameNext {ch : Char} (h : Solid (ch :: r)) (hnext : SameNext r r') :
    Solid (ch :: r') := by
  by_cases hslash : ch = '/'
  · subst hslash
    rw [Solid]
    · rfl
    · rintro rest - rfl
      obtain ⟨rest', rfl⟩ := hnext.eq_cons (by decide)
      exact h
    · rintro rest - rfl
      obtain ⟨rest', rfl⟩ := hnext.eq_cons (by decide)
      exact h
  · rw [Solid] at h ⊢
    · exact h
    all_goals exact fun _ heq _ => hslash heq

theorem InlineSolid.of_sameNext {ch : Char} (h : InlineSolid (ch :: r)) (hnext : SameNext r r') :
    InlineSolid (ch :: r') := by
  by_cases hslash : ch = '/'
  · subst hslash
    rw [InlineSolid]
    · rfl
    · rintro rest - rfl
      obtain ⟨rest', rfl⟩ := hnext.eq_cons (by decide)
      exact h
    · rintro rest - rfl
      obtain ⟨rest', rfl⟩ := hnext.eq_cons (by decide)
      exact h
  · rw [InlineSolid] at h ⊢
    · exact h
    all_goals exact fun _ heq _ => hslash heq

/-! ## Steps -/

theorem literal_of_codeMove {frames fs : List Frame} {pos extra : Nat} {c : Char} {rest : List Char}
    {counts : Bool} (h : codeMove frames pos c rest = .ok (.pass extra fs counts))
    (hopens : opensLiteral c rest = true) :
    ∃ l, openLiteral? pos (c :: rest) = some (l, extra + 1) := by
  rw [codeMove, if_pos hopens] at h
  cases hopen : openLiteral? pos (c :: rest) with
  | none => simp [hopen] at h
  | some r =>
    obtain ⟨l, n⟩ := r
    have hn := openLiteral?_length hopen
    simp only [hopen, Except.ok.injEq, Move.pass.injEq] at h
    exact ⟨l, by rw [← h.1, Nat.sub_add_cancel hn.1]⟩

/-- A delimiter that is passed in front of the seam opens the same literal with another text behind
it, and where none is passed there is none. -/
theorem literal_seam {frames fs : List Frame} {pos extra : Nat} {c : Char} {counts : Bool}
    (h : codeMove frames pos c (s ++ r) = .ok (.pass extra fs counts)) (hextra : extra ≤ s.length)
    (hr : Replaces r r') :
    opensLiteral c (s ++ r) = opensLiteral c (s ++ r') ∧
      (opensLiteral c (s ++ r) = true →
        openLiteral? pos (c :: (s ++ r)) = openLiteral? pos (c :: (s ++ r'))) := by
  rcases hr with rfl | ⟨hr, hr'⟩
  · have hfront : opensLiteral c (s ++ r) = true →
        ∃ l, openLiteral? pos (c :: (s ++ r)) = some (l, extra + 1) ∧
          openLiteral? pos (c :: s) = some (l, extra + 1) := by
      intro hopens
      obtain ⟨l, hl⟩ := literal_of_codeMove h hopens
      exact ⟨l, hl, openLiteral?_front hl (by rw [List.length_cons]; omega)⟩
    rw [List.append_nil]
    refine ⟨?_, fun hopens => ?_⟩
    · cases s with
      | cons => rfl
      | nil =>
        -- a hash mark alone opens nothing
        by_cases hquote : c = '"'
        · simp [opensLiteral, hquote]
        · have hnone : openLiteral? pos [c] = none := by
            rw [openLiteral?_eq]
            by_cases hhash : c = '#' <;> simp [hhash, Ne.symm hquote]
          have hfalse : ¬opensLiteral c ([] ++ r) = true := by
            intro hopens
            obtain ⟨l, -, hl⟩ := hfront hopens
            simp [hnone] at hl
          rw [Bool.eq_false_iff.2 hfalse]
          simp [opensLiteral, hquote]
    · obtain ⟨l, hl, hl'⟩ := hfront hopens
      rw [hl, hl']
  · refine ⟨opensLiteral_seam hr hr'.quiet c, fun _ => ?_⟩
    rw [← List.cons_append, ← List.cons_append]
    exact openLiteral?_seam hr hr'.quiet pos

theorem codeMove_seam {frames fs : List Frame} {pos extra : Nat} {c : Char} {counts : Bool}
    (h : codeMove frames pos c (s ++ r) = .ok (.pass extra fs counts)) (hextra : extra ≤ s.length)
    (hr : Replaces r r')
    (hline : extra < s.length ∨ counts = true ∨ (AtLineEnd r → AtLineEnd r')) :
    codeMove frames pos c (s ++ r') = .ok (.pass extra fs counts) := by
  have hr' := hr.firm
  obtain ⟨hsame, hliteral⟩ := literal_seam h hextra hr
  unfold codeMove at h ⊢
  by_cases hopens : opensLiteral c (s ++ r) = true
  · rw [if_pos hopens, hliteral hopens] at h
    rwa [if_pos (hsame ▸ hopens)]
  rw [if_neg hopens] at h
  rw [if_neg (hsame ▸ hopens)]
  cases s with
  | nil =>
    -- a comment would have passed more
    simp only [List.nil_append] at h ⊢
    rw [if_neg fun h => hr' '/' h.2 (by decide), if_neg fun h => hr' '*' h.2 (by decide)]
    split at h
    · rename_i hslash
      obtain ⟨rest, rfl⟩ := List.head?_eq_some_iff.1 hslash.2
      simp only [Except.ok.injEq, Move.pass.injEq] at h
      have : lineLength ('/' :: rest) = lineLength rest + 1 := rfl
      simp only [List.length_nil] at hextra
      omega
    · split at h
      · split at h
        · simp only [Except.ok.injEq, Move.pass.injEq] at h
          simp only [List.length_nil] at hextra
          omega
        · simp at h
      · exact h
  | cons d s =>
    have hhead : (d :: s ++ r).head? = (d :: s ++ r').head? := rfl
    rw [hhead] at h
    by_cases hslash : c = '/' ∧ (d :: s ++ r').head? = some '/'
    · rw [if_pos hslash] at h ⊢
      simp only [Except.ok.injEq, Move.pass.injEq] at h ⊢
      obtain ⟨hlength, hfs, hcounts⟩ := h
      refine ⟨?_, hfs, hcounts⟩
      rw [lineLength_seam (r := r) (by omega) ?_, hlength]
      rcases hline with hlt | rfl | hend
      · exact .inl (by omega)
      · simp at hcounts
      · exact .inr hend
    rw [if_neg hslash] at h ⊢
    by_cases hblock : c = '/' ∧ (d :: s ++ r').head? = some '*'
    · rw [if_pos hblock, List.cons_append, List.tail_cons] at h ⊢
      cases hn : commentLength? 1 0 (s ++ r) with
      | none => simp [hn] at h
      | some n =>
        rw [hn] at h
        have hle : n ≤ s.length := by
          simp only [Except.ok.injEq, Move.pass.injEq] at h
          simp only [List.length_cons] at hextra
          omega
        rw [commentLength?_seam hn hle]
        exact h
    · rw [if_neg hblock] at h ⊢
      exact h

theorem literalMove_seam {l : OpenLiteral} {outer fs : List Frame} {extra : Nat} {c : Char}
    {counts : Bool} (h : literalMove l outer c (s ++ r) = .ok (.pass extra fs counts))
    (hextra : extra ≤ s.length) (hr : Replaces r r') :
    literalMove l outer c (s ++ r') = .ok (.pass extra fs counts) := by
  -- what is found of a delimiter or an escape is passed
  have hclosed : l.closing.isPrefixOf (c :: (s ++ r)) = l.closing.isPrefixOf (c :: (s ++ r')) := by
    rw [← List.cons_append, ← List.cons_append]
    refine isPrefixOf_replaces hr (fun ch hch => ?_) fun hclose => ?_
    · rw [OpenLiteral.closing, List.mem_append] at hch
      exact hch.imp List.eq_of_mem_replicate List.eq_of_mem_replicate
    · rw [literalMove, ← List.cons_append, if_pos hclose] at h
      simp only [Except.ok.injEq, Move.pass.injEq] at h
      rw [List.length_cons]
      omega
  unfold literalMove at h ⊢
  rw [hclosed] at h
  by_cases hclose : l.closing.isPrefixOf (c :: (s ++ r'))
  · rw [if_pos hclose] at h ⊢
    exact h
  rw [if_neg hclose] at h ⊢
  have hinside : l.escape.isPrefixOf (c :: (s ++ r)) = true → l.hashes < s.length := by
    intro hescape
    rw [if_pos hescape] at h
    simp only [Except.ok.injEq, Move.pass.injEq] at h
    omega
  have hescape : l.escape.isPrefixOf (c :: (s ++ r)) = l.escape.isPrefixOf (c :: (s ++ r')) := by
    have hhashes : ∀ x, l.escape.isPrefixOf (c :: x)
        = ('\\' == c && (List.replicate l.hashes '#').isPrefixOf x) := by
      intro x
      rw [OpenLiteral.escape, List.isPrefixOf_cons_cons]
    rw [hhashes] at hinside
    rw [hhashes, hhashes]
    cases hbackslash : '\\' == c with
    | false => rfl
    | true =>
      rw [hbackslash, Bool.true_and] at hinside
      rw [Bool.true_and, Bool.true_and]
      refine isPrefixOf_replaces hr (fun ch hch => .inr (List.eq_of_mem_replicate hch)) fun h => ?_
      have := hinside h
      rw [List.length_replicate]
      omega
  by_cases hescaped : l.escape.isPrefixOf (c :: (s ++ r)) = true
  · have hlength := hinside hescaped
    rw [if_pos hescaped] at h
    rw [if_pos (hescape ▸ hescaped)]
    -- the character that is escaped is passed with the escape
    have hhead : ∀ x : List Char, ((s ++ x).drop l.hashes).head? = (s.drop l.hashes).head? := by
      intro x
      rw [List.drop_append_of_le_length (by omega), List.head?_append, List.head?_drop,
        List.getElem?_eq_getElem hlength, Option.some_or]
    rw [hhead] at h ⊢
    exact h
  · rw [if_neg hescaped] at h
    rwa [if_neg (hescape ▸ hescaped)]

/-- A step does not depend on what stands behind a seam that it does not reach. -/
theorem Frame.move_seam {frame : Frame} {outer fs : List Frame} {pos extra : Nat} {c : Char}
    {counts : Bool} (h : frame.move outer pos c (s ++ r) = .ok (.pass extra fs counts))
    (hextra : extra ≤ s.length) (hr : Replaces r r')
    (hline : extra < s.length ∨ counts = true ∨ (AtLineEnd r → AtLineEnd r')) :
    frame.move outer pos c (s ++ r') = .ok (.pass extra fs counts) := by
  cases frame with
  | expression stops =>
    simp only [Frame.move] at h ⊢
    split at h
    · simp at h
    · rename_i hstop
      rw [if_neg hstop]
      exact codeMove_seam h hextra hr hline
  | bracket close =>
    simp only [Frame.move] at h ⊢
    split at h
    · rename_i hclose
      rw [if_pos hclose]
      exact h
    · rename_i hclose
      rw [if_neg hclose]
      split at h
      · simp at h
      · rename_i hother
        rw [if_neg hother]
        exact codeMove_seam h hextra hr hline
  | interpolation start =>
    simp only [Frame.move] at h ⊢
    split at h
    · rename_i hclose
      rw [if_pos hclose]
      exact h
    · rename_i hclose
      rw [if_neg hclose]
      split at h
      · simp at h
      · rename_i hother
        rw [if_neg hother]
        exact codeMove_seam h hextra hr hline
  | literal l => exact literalMove_seam h hextra hr

/-! ## Traces -/

/-- A passage stays the same with another text behind the seam, which is where the passage ends or
further on. -/
theorem Passes.seam {fs fs' : List Frame} {w : List Char} {k : Nat}
    (h : Passes fs w k fs' (s ++ r)) (hr : Replaces r r')
    (hline : s ≠ [] ∨ k = w.length ∨ (AtLineEnd r → AtLineEnd r')) :
    Passes fs w k fs' (s ++ r') := by
  generalize hbehind : s ++ r = behind at h
  induction h with
  | nil => exact .nil
  | @step frame outer fs fs' c v w behind k counts hmove hrest ih =>
    subst hbehind
    have hk := hrest.counted_le
    have hone : (if counts then v.length + 1 else 0) ≤ v.length + 1 := by split <;> omega
    have hcounted : lastCounted (v.length + 1) (if counts then v.length + 1 else 0) k
          = (c :: (v ++ w)).length →
        k = w.length ∧ (w.length = 0 → (if counts then v.length + 1 else 0) = v.length + 1) := by
      intro hall
      refine (lastCounted_eq_add_iff hone).1 (hall.trans ?_)
      rw [List.length_cons, List.length_append]
      omega
    rw [← List.append_assoc, ← List.append_assoc] at hmove
    have hmove' := Frame.move_seam hmove (by simp only [List.length_append]; omega) hr (by
      cases hw : w ++ s with
      | cons d x =>
        have : 0 < (w ++ s).length := by simp [hw]
        simp only [List.length_append] at this ⊢
        exact .inl (by omega)
      | nil =>
        obtain ⟨rfl, rfl⟩ := List.append_eq_nil_iff.1 hw
        refine .inr ((hline.resolve_left (by simp)).imp_left fun hall => ?_)
        cases counts with
        | true => rfl
        | false => simpa using (hcounted hall).2 rfl)
    rw [List.append_assoc, List.append_assoc] at hmove'
    exact .step hmove' (ih (hline.imp_right fun h => h.imp_left fun hall => (hcounted hall).1) rfl)

/-- A passage stays the same if the text ends with it or further on. -/
theorem Passes.truncate {fs fs' : List Frame} {w : List Char} {k : Nat}
    (h : Passes fs w k fs' (s ++ r)) : Passes fs w k fs' s := by
  have := h.seam (.inl rfl) (.inr (.inr fun _ => atLineEnd_nil))
  rwa [List.append_nil] at this

end LocalizedKeys.Swift
