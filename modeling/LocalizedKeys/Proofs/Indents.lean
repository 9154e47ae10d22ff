import LocalizedKeys.Proofs.ExpressionTexts
import LocalizedKeys.Proofs.Indented
import LocalizedKeys.Proofs.Ranges

/-!
# Indented code is passed

Layout may be put behind the line feeds of a text without a change in what is open where
(`Passes.indents`): no delimiter and no escape goes over a line feed, and layout means nothing in
code, in comments and in multi-line literals. A line feed that is escaped in a literal of one line
is the exception. The line goes on behind it, so nothing that ends a line may be put there.
-/

namespace LocalizedKeys.Swift

open Text Expansion

/-- The second text is the first one with characters of `indent` put behind its line feeds. -/
inductive Indents (indent : List Char) : List Char → List Char → Prop
  | nil : Indents indent [] []
  | cons {c : Char} {x y : List Char} :
      c ≠ '\n' → Indents indent x y → Indents indent (c :: x) (c :: y)
  | feed {v x y : List Char} :
      v ⊆ indent → Indents indent x y → Indents indent ('\n' :: x) ('\n' :: (v ++ y))

/-- A line feed comes right behind a backslash, or behind hash marks that do. -/
def EscapesFeed (w : List Char) : Prop := ∃ n, '\\' :: (List.replicate n '#' ++ ['\n']) <:+: w

/-- Layout can be put behind the line feeds of the text: only blanks, if one of them is escaped. -/
def IndentFits (indent w : List Char) : Prop :=
  (∀ ch ∈ indent, isBlank ch = true) ∨ IsLayoutText indent ∧ ¬EscapesFeed w

variable {indent w w' r v x x₁ x₂ y z : List Char}

theorem IndentFits.layout (h : IndentFits indent w) : IsLayoutText indent := by
  rcases h with h | h
  · exact fun ch hch => isLayout_of_isBlank (h ch hch)
  · exact h.1

theorem IndentFits.of_infix (h : IndentFits indent w) (hpart : w' <:+: w) :
    IndentFits indent w' :=
  h.imp_right fun ⟨hlayout, hescapes⟩ =>
    ⟨hlayout, fun ⟨n, hn⟩ => hescapes ⟨n, hn.trans hpart⟩⟩

namespace Indents

theorem of_noFeed (h : '\n' ∉ x) : Indents indent x x := by
  induction x with
  | nil => exact .nil
  | cons c x ih =>
    rw [List.mem_cons, not_or] at h
    exact .cons (Ne.symm h.1) (ih h.2)

theorem eq_of_noFeed (h : Indents indent x y) (hx : '\n' ∉ x) : y = x := by
  induction h with
  | nil => rfl
  | cons _ _ ih => rw [ih fun hmem => hx (List.mem_cons_of_mem _ hmem)]
  | feed => exact absurd List.mem_cons_self hx

theorem append (h₁ : Indents indent x₁ w) (h₂ : Indents indent x₂ w') :
    Indents indent (x₁ ++ x₂) (w ++ w') := by
  induction h₁ with
  | nil => exact h₂
  | cons hc _ ih => exact .cons hc ih
  | feed hv _ ih =>
    rw [List.cons_append, List.cons_append, List.append_assoc]
    exact .feed hv ih

theorem split (h : Indents indent (x₁ ++ x₂) y) :
    ∃ y₁ y₂, y = y₁ ++ y₂ ∧ Indents indent x₁ y₁ ∧ Indents indent x₂ y₂ := by
  induction x₁ generalizing y with
  | nil => exact ⟨[], y, rfl, .nil, h⟩
  | cons c x₁ ih =>
    cases h with
    | cons hc htail =>
      obtain ⟨y₁, y₂, rfl, h₁, h₂⟩ := ih htail
      exact ⟨c :: y₁, y₂, rfl, .cons hc h₁, h₂⟩
    | @feed v _ _ hv htail =>
      obtain ⟨y₁, y₂, rfl, h₁, h₂⟩ := ih htail
      exact ⟨'\n' :: (v ++ y₁), y₂, by simp, .feed hv h₁, h₂⟩

theorem getLast?_eq (h : Indents indent x y) (hx : x.getLast? ≠ some '\n') :
    y.getLast? = x.getLast? := by
  rcases List.eq_nil_or_concat x with rfl | ⟨x, c, rfl⟩
  · rw [h.eq_of_noFeed List.not_mem_nil]
  · rw [List.concat_eq_append] at h hx ⊢
    obtain ⟨y, z, rfl, -, hz⟩ := h.split
    have hc : c ≠ '\n' := by simpa using hx
    rw [hz.eq_of_noFeed (by simpa using Ne.symm hc), List.getLast?_concat, List.getLast?_concat]

/-! ## Lookahead -/

theorem head?_eq (h : Indents indent x y) (r : List Char) : (x ++ r).head? = (y ++ r).head? := by
  cases h <;> rfl

theorem isPrefixOf_eq (h : Indents indent x y) {word : List Char} (hword : '\n' ∉ word)
    (r : List Char) : word.isPrefixOf (x ++ r) = word.isPrefixOf (y ++ r) := by
  induction word generalizing x y with
  | nil => simp
  | cons a word ih =>
    rw [List.mem_cons, not_or] at hword
    cases h with
    | nil => rfl
    | cons _ htail =>
      rw [List.cons_append, List.cons_append, List.isPrefixOf_cons_cons,
        List.isPrefixOf_cons_cons, ih htail hword.2]
    | feed =>
      have hne : (a == '\n') = false := beq_eq_false_iff_ne.2 (Ne.symm hword.1)
      rw [List.cons_append, List.cons_append, List.isPrefixOf_cons_cons,
        List.isPrefixOf_cons_cons, hne, Bool.false_and, Bool.false_and]

/-- What is left behind characters of some kind is indented as before. -/
theorem drop_takeWhile (h : Indents indent x y) {p : Char → Bool} (hp : p '\n' = false)
    (r : List Char) :
    (x ++ r).takeWhile p = (y ++ r).takeWhile p ∧ ∃ x' y' r', (x ++ r).dropWhile p = x' ++ r' ∧
      (y ++ r).dropWhile p = y' ++ r' ∧ Indents indent x' y' := by
  induction h with
  | nil => exact ⟨rfl, [], [], r.dropWhile p, rfl, rfl, .nil⟩
  | @cons c x y hc htail ih =>
    by_cases hpc : p c = true
    · rw [List.cons_append, List.cons_append, List.takeWhile_cons_of_pos hpc,
        List.takeWhile_cons_of_pos hpc, List.dropWhile_cons_of_pos hpc,
        List.dropWhile_cons_of_pos hpc, ih.1]
      exact ⟨rfl, ih.2⟩
    · rw [List.cons_append, List.cons_append, List.takeWhile_cons_of_neg hpc,
        List.takeWhile_cons_of_neg hpc, List.dropWhile_cons_of_neg hpc,
        List.dropWhile_cons_of_neg hpc]
      exact ⟨rfl, c :: x, c :: y, r, rfl, rfl, .cons hc htail⟩
  | @feed v x y hv htail ih =>
    have hpc : ¬p '\n' = true := by simp [hp]
    rw [List.cons_append, List.cons_append, List.takeWhile_cons_of_neg hpc,
      List.takeWhile_cons_of_neg hpc, List.dropWhile_cons_of_neg hpc,
      List.dropWhile_cons_of_neg hpc]
    exact ⟨rfl, '\n' :: x, '\n' :: (v ++ y), r, rfl, rfl, .feed hv htail⟩

theorem openLiteral?_eq (h : Indents indent x y) (pos : Nat) (r : List Char) :
    openLiteral? pos (x ++ r) = openLiteral? pos (y ++ r) := by
  have hdrop : ∀ {p : Char → Bool} (cs : List Char),
      cs.drop (cs.takeWhile p).length = cs.dropWhile p := by
    intro p cs
    conv => lhs; rhs; rw [← List.takeWhile_append_dropWhile (p := p) (l := cs)]
    rw [List.drop_left]
  obtain ⟨htake, x', y', r', hx, hy, hrest⟩ := h.drop_takeWhile (p := (· == '#')) (by decide) r
  have hthree := hrest.isPrefixOf_eq (by decide : '\n' ∉ List.replicate 3 '"') r'
  have hone := hrest.isPrefixOf_eq (by decide : '\n' ∉ List.replicate 1 '"') r'
  rw [Swift.openLiteral?_eq, Swift.openLiteral?_eq]
  dsimp only
  rw [hdrop, hdrop, hx, hy, hthree, hone, htake]

end Indents

/-! ## Comments -/

theorem commentLength?_cons {ch : Char} {rest : List Char}
    (hopen : ch = '/' → rest.head? ≠ some '*') (hclose : ch = '*' → rest.head? ≠ some '/')
    (depth : Int) (passed : Nat) :
    commentLength? depth passed (ch :: rest) = commentLength? depth (passed + 1) rest := by
  rw [commentLength?]
  · rintro rest' rfl rfl
    exact hopen rfl rfl
  · rintro rest' rfl rfl
    exact hclose rfl rfl

theorem ne_of_isLayout {ch d : Char} (h : isLayout ch = true) (hd : isLayout d = false) :
    ch ≠ d := by
  rintro rfl
  simp [h] at hd

theorem commentLength?_layout (hv : IsLayoutText v) (depth : Int) (passed : Nat) (y : List Char) :
    commentLength? depth passed (v ++ y) = commentLength? depth (passed + v.length) y := by
  induction v generalizing passed with
  | nil => rfl
  | cons ch v ih =>
    obtain ⟨hch, hv⟩ := List.forall_mem_cons.1 hv
    have hslash : ch ≠ '/' := ne_of_isLayout hch (by decide)
    have hstar : ch ≠ '*' := ne_of_isLayout hch (by decide)
    rw [List.cons_append, commentLength?_cons (absurd · hslash) (absurd · hstar), ih hv,
      List.length_cons]
    congr 1
    omega

/-- The rest of a comment stays the rest of one. -/
theorem Indents.commentLength?_eq (h : Indents indent x y) (hindent : IsLayoutText indent)
    {depth : Int} {passed : Nat} (hx : commentLength? depth passed x = some (passed + x.length))
    (passed' : Nat) : commentLength? depth passed' y = some (passed' + y.length) := by
  fun_induction commentLength? depth passed x generalizing y passed' with
  | case1 depth passed rest ih =>
    cases h with
    | cons _ h =>
      cases h with
      | cons _ htail =>
        have := ih htail (by rw [hx, List.length_cons, List.length_cons]; congr 1; omega)
          (passed' + 2)
        rw [commentLength?, this, List.length_cons, List.length_cons]
        congr 1
        omega
  | case2 passed rest =>
    have hnil : rest = [] := by
      refine List.eq_nil_of_length_eq_zero ?_
      have := Option.some.inj hx
      simp only [List.length_cons] at this
      omega
    subst hnil
    rw [h.eq_of_noFeed (by decide), commentLength?, if_pos rfl]
    rfl
  | case3 depth passed rest hdepth ih =>
    cases h with
    | cons _ h =>
      cases h with
      | cons _ htail =>
        have := ih htail (by rw [hx, List.length_cons, List.length_cons]; congr 1; omega)
          (passed' + 2)
        rw [commentLength?, if_neg hdepth, this, List.length_cons, List.length_cons]
        congr 1
        omega
  | case4 depth passed ch rest hopen hclose ih =>
    have hlength : commentLength? depth (passed + 1) rest = some (passed + 1 + rest.length) := by
      rw [hx, List.length_cons]
      congr 1
      omega
    cases h with
    | @cons _ _ y _ htail =>
      have hhead := htail.head?_eq []
      rw [List.append_nil, List.append_nil] at hhead
      rw [commentLength?_cons, ih htail hlength, List.length_cons]
      · congr 1
        omega
      · rintro rfl hnext
        rw [← hhead] at hnext
        obtain ⟨rest', rfl⟩ := List.head?_eq_some_iff.1 hnext
        exact hopen rest' rfl rfl
      · rintro rfl hnext
        rw [← hhead] at hnext
        obtain ⟨rest', rfl⟩ := List.head?_eq_some_iff.1 hnext
        exact hclose rest' rfl rfl
    | feed hv htail =>
      rw [commentLength?_cons (by simp) (by simp),
        commentLength?_layout fun ch hch => hindent ch (hv hch), ih htail hlength]
      simp only [List.length_cons, List.length_append, Option.some.injEq]
      omega
  | case5 => simp at hx

theorem Indents.endsComment (h : Indents indent x y) (hindent : IsLayoutText indent)
    (hx : EndsComment x) : EndsComment y := by
  have := h.commentLength?_eq hindent (by rw [Nat.zero_add]; exact hx) 0
  rwa [Nat.zero_add] at this

/-! ## Steps -/

/-- A line that ends with a text does so in front of indented code, too. -/
theorem lineLength_indents (h : lineLength (v ++ (w ++ r)) = v.length)
    (hw : Indents indent w w') : lineLength (v ++ (w' ++ r)) = v.length := by
  obtain ⟨line, behind, hsplit, hlength, hline, hend⟩ := exists_inLine (v ++ (w ++ r))
  obtain ⟨rfl, rfl⟩ := List.append_inj hsplit (h.symm.trans hlength.symm)
  refine lineLength_append hline ?_
  rw [AtLineEnd, ← hw.head?_eq r]
  exact hend

/-- A step in code that passes no line feed is one in front of indented code, too. -/
theorem codeMove_indents {frames fs : List Frame} {c : Char} {counts : Bool}
    (h : codeMove frames 0 c (v ++ (w ++ r)) = .ok (.pass v.length fs counts))
    (hfeed : '\n' ∉ c :: v) (hw : Indents indent w w') :
    codeMove frames 0 c (v ++ (w' ++ r)) = .ok (.pass v.length fs counts) := by
  have hnoFeed : '\n' ∉ v := fun hmem => hfeed (List.mem_cons_of_mem _ hmem)
  have hhead := ((Indents.of_noFeed hnoFeed).append hw).head?_eq r
  have hliteral := ((Indents.of_noFeed hfeed).append hw).openLiteral?_eq 0 r
  rw [List.append_assoc, List.append_assoc] at hhead hliteral
  rw [List.cons_append, List.cons_append] at hliteral
  unfold codeMove at h ⊢
  rw [opensLiteral, ← hhead, ← opensLiteral, ← hliteral]
  by_cases hopens : opensLiteral c (v ++ (w ++ r)) = true
  · rw [if_pos hopens] at h ⊢
    exact h
  rw [if_neg hopens] at h ⊢
  by_cases hline : c = '/' ∧ (v ++ (w ++ r)).head? = some '/'
  · rw [if_pos hline] at h ⊢
    simp only [Except.ok.injEq, Move.pass.injEq] at h ⊢
    exact ⟨lineLength_indents h.1 hw, h.2⟩
  rw [if_neg hline] at h ⊢
  by_cases hblock : c = '/' ∧ (v ++ (w ++ r)).head? = some '*'
  · rw [if_pos hblock] at h ⊢
    cases hn : commentLength? 1 0 (v ++ (w ++ r)).tail with
    | none => simp [hn] at h
    | some n =>
      rw [hn] at h
      simp only [Except.ok.injEq, Move.pass.injEq] at h
      obtain ⟨hlength, rfl, rfl⟩ := h
      cases v with
      | nil => simp at hlength
      | cons d v =>
        rw [List.length_cons, Nat.add_right_cancel_iff] at hlength
        rw [List.cons_append, List.tail_cons] at hn ⊢
        rw [commentLength?_seam hn (Nat.le_of_eq hlength), List.length_cons, hlength]
  · rw [if_neg hblock] at h ⊢
    exact h

/-- Layout is passed in code that lets it pass. -/
theorem passes_layout {f : Frame} (hv : IsLayoutText v) (hf : ∀ ch ∈ v, f.Admits ch)
    (outer : List Frame) (r : List Char) : Passes (f :: outer) v 0 (f :: outer) r := by
  induction v with
  | nil => exact .nil
  | cons ch v ih =>
    obtain ⟨hch, hv⟩ := List.forall_mem_cons.1 hv
    obtain ⟨hadmits, hf⟩ := List.forall_mem_cons.1 hf
    exact (passes_space hadmits (isSpace_of_isLayout hch) outer _).append (ih hv hf)

theorem closing_isPrefixOf (l : OpenLiteral) {ch : Char} (h : ch ≠ '"') (rest : List Char) :
    l.closing.isPrefixOf (ch :: rest) = false := by
  have hquote : ('"' == ch) = false := beq_eq_false_iff_ne.2 (Ne.symm h)
  rw [OpenLiteral.closing]
  cases l.multiline <;> simp [List.replicate, List.isPrefixOf_cons_cons, hquote]

theorem escape_isPrefixOf (l : OpenLiteral) {ch : Char} (h : ch ≠ '\\') (rest : List Char) :
    l.escape.isPrefixOf (ch :: rest) = false := by
  rw [OpenLiteral.escape, List.isPrefixOf_cons_cons, beq_eq_false_iff_ne.2 (Ne.symm h),
    Bool.false_and]

/-- A character that begins neither the delimiter nor an escape is passed in a literal. -/
theorem literalMove_plain {l : OpenLiteral} {ch : Char} (hquote : ch ≠ '"') (hslash : ch ≠ '\\')
    (hend : l.multiline = true ∨ isLineEnd ch = false) (outer : List Frame) (rest : List Char) :
    literalMove l outer ch rest = .ok (.pass 0 (.literal l :: outer) true) := by
  have hgoes : ¬(!l.multiline && isLineEnd ch) = true := by
    rcases hend with h | h <;> simp [h]
  rw [literalMove, closing_isPrefixOf l hquote, escape_isPrefixOf l hslash, if_neg (by simp),
    if_neg (by simp), if_neg hgoes]

theorem isLineEnd_of_isBlank {ch : Char} (h : isBlank ch = true) : isLineEnd ch = false := by
  simp only [isBlank, Bool.or_eq_true, beq_iff_eq] at h
  rcases h with rfl | rfl <;> decide

/-- Layout is passed in a literal, line ends only in one that may have them. -/
theorem passes_layout_literal {l : OpenLiteral} (hv : IsLayoutText v)
    (hl : l.multiline = true ∨ ∀ ch ∈ v, isBlank ch = true) (outer : List Frame) (r : List Char) :
    ∃ k, Passes (.literal l :: outer) v k (.literal l :: outer) r := by
  induction v with
  | nil => exact ⟨0, .nil⟩
  | cons ch v ih =>
    obtain ⟨hch, hv⟩ := List.forall_mem_cons.1 hv
    have hmove : Frame.move (.literal l) outer 0 ch ([] ++ (v ++ r))
        = .ok (.pass 0 (.literal l :: outer) true) :=
      literalMove_plain (ne_of_isLayout hch (by decide)) (ne_of_isLayout hch (by decide))
        (hl.imp_right fun h => isLineEnd_of_isBlank (h ch List.mem_cons_self)) outer _
    obtain ⟨k, hk⟩ := ih hv (hl.imp_right fun h ch hch => h ch (List.mem_cons_of_mem _ hch))
    exact ⟨_, Passes.step (v := []) hmove hk⟩

theorem feed_notMem_closing (l : OpenLiteral) : '\n' ∉ l.closing := by
  intro hmem
  rw [OpenLiteral.closing, List.mem_append, List.mem_replicate, List.mem_replicate] at hmem
  rcases hmem with ⟨-, h⟩ | ⟨-, h⟩ <;> exact absurd h (by decide)

theorem feed_notMem_escape (l : OpenLiteral) : '\n' ∉ l.escape := by
  intro hmem
  rw [OpenLiteral.escape, List.mem_cons, List.mem_replicate] at hmem
  rcases hmem with h | ⟨-, h⟩ <;> exact absurd h (by decide)

/-- An escape is passed with the character behind it. -/
theorem literalMove_escape (l : OpenLiteral) (outer : List Frame) (ch : Char) (rest : List Char) :
    literalMove l outer '\\' ((List.replicate l.hashes '#' ++ [ch]) ++ rest)
      = .ok (.pass (List.replicate l.hashes '#' ++ [ch]).length
        ((if ch = '(' then [.interpolation l.start] else []) ++ .literal l :: outer) true) := by
  have hescape : l.escape.isPrefixOf ('\\' :: ((List.replicate l.hashes '#' ++ [ch]) ++ rest))
      = true := by
    rw [List.isPrefixOf_iff_prefix, OpenLiteral.escape]
    exact ⟨ch :: rest, by simp⟩
  have hnext : (((List.replicate l.hashes '#' ++ [ch]) ++ rest).drop l.hashes).head?
      = some ch := by
    rw [List.append_assoc, List.drop_left' List.length_replicate]
    rfl
  rw [literalMove, closing_isPrefixOf l (by decide), if_neg (by simp), if_pos hescape, hnext]
  simp only [Option.some.injEq, List.length_append, List.length_replicate, List.length_singleton]

/-- The escape at the front of a text is passed with the character behind it. -/
theorem eq_escape {l : OpenLiteral} {c : Char} {rest : List Char}
    (h : l.escape.isPrefixOf (c :: (v ++ rest)) = true) (hlength : l.hashes + 1 = v.length) :
    ∃ ch, c = '\\' ∧ v = List.replicate l.hashes '#' ++ [ch] := by
  rw [List.isPrefixOf_iff_prefix] at h
  obtain ⟨t, ht⟩ := List.prefix_of_prefix_length_le h (List.prefix_append (c :: v) rest)
    (by rw [OpenLiteral.escape, List.length_cons, List.length_cons, List.length_replicate]; omega)
  rw [OpenLiteral.escape, List.cons_append] at ht
  obtain ⟨rfl, rfl⟩ := List.cons.inj ht
  obtain ⟨ch, rfl⟩ := List.length_eq_one_iff.1 (by
    rw [List.length_append, List.length_replicate] at hlength
    omega : t.length = 1)
  exact ⟨ch, rfl, rfl⟩

theorem passes_closing (l : OpenLiteral) (outer : List Frame) (r : List Char) :
    ∃ k, Passes (.literal l :: outer) l.closing k outer r := by
  obtain ⟨c, v, hclosing⟩ := List.exists_cons_of_length_pos l.closing_pos
  have hmove : Frame.move (.literal l) outer 0 c (v ++ r) = .ok (.pass v.length outer true) := by
    rw [Frame.move, literalMove, if_pos, hclosing, List.length_cons, Nat.add_sub_cancel]
    rw [List.isPrefixOf_iff_prefix, hclosing]
    exact List.prefix_append (c :: v) r
  rw [hclosing]
  exact ⟨_, Passes.one hmove⟩

/-- An escape is passed in indented text, too. The indentation behind an escaped line feed is passed
with it. -/
theorem passes_escape_indents {l : OpenLiteral} {ch : Char}
    (hindent : IndentFits indent (l.escape ++ [ch])) (hz : Indents indent (l.escape ++ [ch]) z)
    (outer : List Frame) (r : List Char) :
    ∃ k, Passes (.literal l :: outer) z k
      ((if ch = '(' then [.interpolation l.start] else []) ++ .literal l :: outer) r := by
  by_cases hch : ch = '\n'
  · subst hch
    obtain ⟨y, x, rfl, hy, hx⟩ := hz.split
    rw [hy.eq_of_noFeed (feed_notMem_escape l)]
    cases hx with
    | cons hne => exact absurd rfl hne
    | @feed ins _ _ hins hnil =>
      cases hnil
      -- the line goes on, so only blanks may come here
      have hblank : ∀ ch ∈ ins, isBlank ch = true := by
        rcases hindent with hblank | ⟨-, hescapes⟩
        · exact fun ch hch => hblank ch (hins hch)
        · exact absurd ⟨l.hashes, List.infix_refl _⟩ hescapes
      obtain ⟨k, hk⟩ := passes_layout_literal (l := l)
        (fun ch hch => isLayout_of_isBlank (hblank ch hch)) (.inr hblank) outer r
      have hmove : Frame.move (.literal l) outer 0 '\\' _ = _ :=
        literalMove_escape l outer '\n' (ins ++ r)
      have htext : l.escape ++ '\n' :: (ins ++ [])
          = '\\' :: ((List.replicate l.hashes '#' ++ ['\n']) ++ ins) := by
        simp [OpenLiteral.escape]
      rw [if_neg (by decide), List.nil_append] at hmove ⊢
      rw [htext]
      exact ⟨_, Passes.step hmove hk⟩
  · have hfeed : '\n' ∉ l.escape ++ [ch] := by
      simp [feed_notMem_escape, Ne.symm hch]
    have hmove : Frame.move (.literal l) outer 0 '\\' _ = _ := literalMove_escape l outer ch r
    rw [hz.eq_of_noFeed hfeed, OpenLiteral.escape]
    exact ⟨_, Passes.one hmove⟩

/-- So is what begins neither the delimiter nor an escape. -/
theorem passes_inside_indents {l : OpenLiteral} {c : Char}
    (hclose : ¬l.closing.isPrefixOf (c :: (w ++ r)) = true)
    (hescape : ¬l.escape.isPrefixOf (c :: (w ++ r)) = true)
    (hgoes : ¬(!l.multiline && isLineEnd c) = true) (hindent : IsLayoutText indent)
    (hz : Indents indent [c] z) (hw : Indents indent w w') (outer : List Frame) :
    ∃ k, Passes (.literal l :: outer) z k (.literal l :: outer) (w' ++ r) := by
  cases hz with
  | @feed ins _ _ hins hnil =>
    cases hnil
    have hmultiline : l.multiline = true := by simpa [isLineEnd] using hgoes
    obtain ⟨k, hk⟩ := passes_layout_literal (fun ch hch => hindent ch (hins hch))
      (.inl hmultiline) outer (w' ++ r)
    have hmove : Frame.move (.literal l) outer 0 '\n' ([] ++ (ins ++ (w' ++ r))) = _ :=
      literalMove_plain (by decide) (by decide) (.inl hmultiline) outer _
    rw [List.append_nil]
    exact ⟨_, Passes.step (v := []) hmove hk⟩
  | cons hc hnil =>
    cases hnil
    have hword : ∀ word : List Char, '\n' ∉ word → ¬word.isPrefixOf (c :: (w ++ r)) = true →
        ¬word.isPrefixOf (c :: (w' ++ r)) = true := by
      intro word hfeed hnot
      have := (Indents.cons hc hw).isPrefixOf_eq hfeed r
      rw [List.cons_append, List.cons_append] at this
      rwa [← this]
    have hmove : Frame.move (.literal l) outer 0 c ([] ++ (w' ++ r))
        = .ok (.pass 0 (.literal l :: outer) true) := by
      rw [Frame.move, literalMove, List.nil_append,
        if_neg (hword _ (feed_notMem_closing l) hclose),
        if_neg (hword _ (feed_notMem_escape l) hescape), if_neg hgoes]
    exact ⟨_, Passes.one (v := []) hmove⟩

/-- A step in a literal is one in indented text, too. -/
theorem literalMove_indents {l : OpenLiteral} {outer fs : List Frame} {c : Char} {counts : Bool}
    (h : literalMove l outer c (v ++ (w ++ r)) = .ok (.pass v.length fs counts))
    (hindent : IndentFits indent (c :: v)) (hz : Indents indent (c :: v) z)
    (hw : Indents indent w w') : ∃ k, Passes (.literal l :: outer) z k fs (w' ++ r) := by
  by_cases hclose : l.closing.isPrefixOf (c :: (v ++ (w ++ r))) = true
  · rw [literalMove, if_pos hclose] at h
    simp only [Except.ok.injEq, Move.pass.injEq] at h
    obtain ⟨hlength, rfl, rfl⟩ := h
    have hclosing := eq_closing hclose hlength
    rw [hz.eq_of_noFeed (hclosing ▸ feed_notMem_closing l), ← hclosing]
    exact passes_closing l outer _
  · by_cases hescape : l.escape.isPrefixOf (c :: (v ++ (w ++ r))) = true
    · have hlength : l.hashes + 1 = v.length := by
        rw [literalMove, if_neg hclose, if_pos hescape] at h
        simp only [Except.ok.injEq, Move.pass.injEq] at h
        exact h.1
      obtain ⟨ch, rfl, rfl⟩ := eq_escape hescape hlength
      rw [literalMove_escape] at h
      simp only [Except.ok.injEq, Move.pass.injEq, true_and] at h
      obtain ⟨rfl, rfl⟩ := h
      exact passes_escape_indents hindent hz outer _
    · rw [literalMove, if_neg hclose, if_neg hescape] at h
      split at h
      · simp at h
      rename_i hgoes
      simp only [Except.ok.injEq, Move.pass.injEq] at h
      obtain ⟨hlength, rfl, rfl⟩ := h
      obtain rfl := List.eq_nil_of_length_eq_zero hlength.symm
      exact passes_inside_indents (w := w) hclose hescape hgoes hindent.layout hz hw outer

/-- No delimiter goes over a line feed. -/
theorem feed_notMem_delimiter {pos n : Nat} {cs : List Char} {l : OpenLiteral}
    (h : openLiteral? pos cs = some (l, n)) : '\n' ∉ cs.take n := by
  have htake : cs.take (cs.takeWhile (· == '#')).length = cs.takeWhile (· == '#') := by
    conv => lhs; rhs; rw [← List.takeWhile_append_dropWhile (p := (· == '#')) (l := cs)]
    rw [List.take_left]
  have hquotes : ∀ k, (List.replicate k '"').isPrefixOf (cs.drop (cs.takeWhile (· == '#')).length)
      = true → '\n' ∉ cs.take ((cs.takeWhile (· == '#')).length + k) := by
    intro k hk hmem
    rw [List.isPrefixOf_iff_prefix] at hk
    obtain ⟨rest, hrest⟩ := hk
    rw [List.take_add, htake, ← hrest, List.take_left' List.length_replicate, List.mem_append,
      List.mem_replicate] at hmem
    rcases hmem with hmem | ⟨-, heq⟩
    · exact absurd (List.all_eq_true.1 (List.all_takeWhile (l := cs)) _ hmem) (by decide)
    · exact absurd heq (by decide)
  rw [openLiteral?_eq] at h
  dsimp only at h
  split at h
  · rename_i hthree
    obtain ⟨-, rfl⟩ := Prod.mk.inj (Option.some.inj h)
    exact hquotes 3 hthree
  · split at h
    · rename_i hone
      obtain ⟨-, rfl⟩ := Prod.mk.inj (Option.some.inj h)
      exact hquotes 1 hone
    · simp at h

/-- Brackets are closed by closing brackets, and expressions end with their line. -/
structure Lined (fs : List Frame) : Prop where
  closes : Closes fs
  stops : ∀ stops, .expression stops ∈ fs → '\n' ∈ stops

theorem Lined.step {frame : Frame} {outer fs : List Frame} {extra : Nat} {c : Char}
    {rest : List Char} {counts : Bool} (h : Lined (frame :: outer))
    (hmove : frame.move outer 0 c rest = .ok (.pass extra fs counts)) : Lined fs := by
  refine ⟨Frame.move_closes hmove h.closes, fun stops hmem => ?_⟩
  rcases Frame.move_frames hmove with ⟨rfl, -⟩ | ⟨opened, rfl, hopened⟩
  · exact h.stops stops (List.mem_cons_of_mem _ hmem)
  · rcases List.mem_append.1 hmem with hmem | hmem
    · have := hopened _ hmem
      simp [Frame.isExpression] at this
    · exact h.stops stops hmem

/-- Where a line feed is let through, so is all layout. -/
theorem Lined.admits {f : Frame} {outer : List Frame} (h : Lined (f :: outer))
    (hfeed : f.Admits '\n') {ch : Char} (hch : isLayout ch = true) : f.Admits ch := by
  cases f with
  | expression stops => exact absurd (h.stops stops List.mem_cons_self) hfeed
  | bracket close =>
    rintro rfl
    have := isSpace_of_isClosingBracket (h.closes ch List.mem_cons_self)
    simp [isSpace_of_isLayout hch] at this
  | interpolation start =>
    rintro rfl
    simp [isLayout, isBlank, isLineEnd] at hch
  | literal l => exact absurd hfeed id

/-- A character of code closes the innermost frame, or it is passed as the frame lets it. -/
theorem Lined.move_code {f : Frame} {outer fs : List Frame} {extra : Nat} {c : Char}
    {rest : List Char} {counts : Bool} (hlined : Lined (f :: outer)) (hcode : ∀ l, f ≠ .literal l)
    (h : f.move outer 0 c rest = .ok (.pass extra fs counts)) :
    (extra = 0 ∧ c ≠ '\n' ∧ ∀ rest', f.move outer 0 c rest' = .ok (.pass 0 fs counts)) ∨
      f.Admits c ∧ codeMove (f :: outer) 0 c rest = .ok (.pass extra fs counts) ∧
        ∀ rest', f.move outer 0 c rest' = codeMove (f :: outer) 0 c rest' := by
  cases f with
  | expression stops =>
    simp only [Frame.move] at h ⊢
    split at h
    · simp at h
    · rename_i hgoes
      have hadmits : (Frame.expression stops).Admits c := by
        intro hmem
        simp [hmem] at hgoes
      exact .inr ⟨hadmits, h, fun rest' => if_neg hgoes⟩
  | bracket close =>
    simp only [Frame.move] at h ⊢
    by_cases hc : c = close
    · subst hc
      rw [if_pos rfl] at h
      simp only [Except.ok.injEq, Move.pass.injEq] at h
      obtain ⟨rfl, rfl, rfl⟩ := h
      refine .inl ⟨rfl, ?_, fun rest' => if_pos rfl⟩
      rintro rfl
      exact absurd (hlined.closes _ List.mem_cons_self) (by decide)
    · rw [if_neg hc] at h
      split at h
      · simp at h
      · rename_i hgoes
        exact .inr ⟨hc, h, fun rest' => by rw [if_neg hc, if_neg hgoes]⟩
  | interpolation start =>
    simp only [Frame.move] at h ⊢
    by_cases hc : c = ')'
    · rw [if_pos hc] at h
      simp only [Except.ok.injEq, Move.pass.injEq] at h
      obtain ⟨rfl, rfl, rfl⟩ := h
      refine .inl ⟨rfl, ?_, fun rest' => if_pos hc⟩
      rintro rfl
      exact absurd hc (by decide)
    · rw [if_neg hc] at h
      split at h
      · simp at h
      · rename_i hgoes
        exact .inr ⟨hc, h, fun rest' => by rw [if_neg hc, if_neg hgoes]⟩
  | literal l => exact absurd rfl (hcode l)

/-- Only a comment goes over a line feed. -/
theorem comment_of_feed {frames fs : List Frame} {c : Char} {rest : List Char} {counts : Bool}
    (h : codeMove frames 0 c (v ++ rest) = .ok (.pass v.length fs counts)) (hfeed : '\n' ∈ v) :
    ∃ body, c = '/' ∧ v = '*' :: body ∧ EndsComment body ∧ fs = frames := by
  have hcode := codePass_of_codeMove h
  generalize hlength : v.length = extra at hcode
  cases hcode with
  | literal hopen =>
    obtain ⟨hpos, -⟩ := openLiteral?_length hopen
    refine absurd (List.mem_cons_of_mem c hfeed) ?_
    have := feed_notMem_delimiter hopen
    rwa [← List.cons_append, List.take_left' (by rw [List.length_cons]; omega)] at this
  | line _ _ =>
    obtain ⟨line, behind, hsplit, hlineLength, hline, -⟩ := exists_inLine (v ++ rest)
    obtain ⟨rfl, -⟩ := List.append_inj hsplit (hlength.trans hlineLength.symm)
    exact absurd (hline _ hfeed) (by decide)
  | @block n hslash hstar hn =>
    cases v with
    | nil => simp at hfeed
    | cons d body =>
      obtain rfl := Option.some.inj hstar
      rw [List.length_cons, Nat.add_right_cancel_iff] at hlength
      obtain ⟨comment, behind, hsplit, hcommentLength, hends⟩ := exists_endsComment hn
      obtain ⟨rfl, -⟩ := List.append_inj hsplit (hlength.trans hcommentLength.symm)
      exact ⟨body, hslash, rfl, hends, rfl⟩
  | bracket | plain =>
    rw [List.eq_nil_of_length_eq_zero hlength] at hfeed
    simp at hfeed

/-- A step in code is one in indented code, too. -/
theorem Lined.code_indents {f : Frame} {outer fs : List Frame} {c : Char} {counts : Bool}
    (hlined : Lined (f :: outer)) (hcode : ∀ l, f ≠ .literal l)
    (h : f.move outer 0 c (v ++ (w ++ r)) = .ok (.pass v.length fs counts))
    (hindent : IsLayoutText indent) (hz : Indents indent (c :: v) z)
    (hw : Indents indent w w') : ∃ k, Passes (f :: outer) z k fs (w' ++ r) := by
  rcases hlined.move_code hcode h with ⟨hnil, hc, hmove⟩ | ⟨hadmits, hmoves, hmove⟩
  · obtain rfl := List.eq_nil_of_length_eq_zero hnil
    rw [hz.eq_of_noFeed (by simpa using Ne.symm hc)]
    exact ⟨_, Passes.one (v := []) (hmove _)⟩
  · by_cases hc : c = '\n'
    · subst hc
      rw [codeMove_plain _ _ _ (by decide)] at hmoves
      simp only [Except.ok.injEq, Move.pass.injEq] at hmoves
      obtain ⟨hnil, rfl, rfl⟩ := hmoves
      obtain rfl := List.eq_nil_of_length_eq_zero hnil.symm
      cases hz with
      | cons hne => exact absurd rfl hne
      | @feed ins _ _ hins hend =>
        cases hend
        have hlayout : IsLayoutText ('\n' :: ins) :=
          List.forall_mem_cons.2 ⟨rfl, fun ch hch => hindent ch (hins hch)⟩
        rw [List.append_nil]
        have hadmitted := fun ch hch => hlined.admits hadmits (hlayout ch hch)
        exact ⟨_, passes_layout hlayout hadmitted outer _⟩
    · by_cases hfeed : '\n' ∈ v
      · obtain ⟨body, rfl, rfl, hends, rfl⟩ := comment_of_feed hmoves hfeed
        cases hz with
        | cons _ hz =>
          cases hz with
          | cons _ hz => exact ⟨_, passes_block hadmits (hz.endsComment hindent hends) outer _⟩
      · have hnoFeed : '\n' ∉ c :: v := by
          rw [List.mem_cons, not_or]
          exact ⟨Ne.symm hc, hfeed⟩
        rw [hz.eq_of_noFeed hnoFeed]
        have hmove' := codeMove_indents hmoves hnoFeed hw
        rw [← hmove] at hmove'
        exact ⟨_, Passes.one hmove'⟩

/-! ## Traces -/

theorem indents_indentLines (indent x : List Char) : Indents indent x (indentLines indent x) := by
  induction x with
  | nil => exact .nil
  | cons c x ih =>
    by_cases hc : c = '\n'
    · subst hc
      rw [indentLines_feed]
      refine .feed ?_ ih
      rw [lineLead]
      split
      · exact List.nil_subset _
      · exact List.Subset.refl _
    · rw [indentLines_cons hc]
      exact .cons hc ih

/-- **Indented text is passed with the same things open before and after.** -/
theorem Passes.indents {fs fs' : List Frame} {k : Nat} (h : Passes fs w k fs' r)
    (hlined : Lined fs) (hindent : IndentFits indent w) (hw : Indents indent w w') :
    ∃ k', Passes fs w' k' fs' r := by
  induction h generalizing w' with
  | nil =>
    cases hw
    exact ⟨0, .nil⟩
  | @step frame outer fs fs' c v w r k counts hmove _ ih =>
    rw [← List.cons_append] at hw
    obtain ⟨z, w', rfl, hz, hw⟩ := hw.split
    obtain ⟨k', hrest⟩ := ih (hlined.step hmove)
      (hindent.of_infix ((List.suffix_append (c :: v) w).isInfix)) hw
    have hfirst : ∃ k, Passes (frame :: outer) z k fs (w' ++ r) := by
      cases frame with
      | literal l =>
        exact literalMove_indents hmove
          (hindent.of_infix ((List.prefix_append (c :: v) w).isInfix)) hz hw
      | expression | bracket | interpolation =>
        exact hlined.code_indents (by simp) hmove hindent.layout hz hw
    obtain ⟨k, hfirst⟩ := hfirst
    exact ⟨_, hfirst.append hrest⟩

end LocalizedKeys.Swift
