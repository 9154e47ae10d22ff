import LocalizedKeys.Swift.Trivia

/-!
# What is passed as trivia

What the readers of trivia pass can be said without a cursor: `Trivia w r` holds when `w` is a
run of white space and comments in front of `r`, and `Solid r` when neither comes next. What
comes after `w` matters in one place only: a line comment has to be followed by a line end, or by
nothing. `skipTrivia_append` and `skipTrivia_solid` run the reader over such texts, and
`skipTrivia_spec` says that nothing else is ever passed.
-/

namespace LocalizedKeys

namespace Cursor

/-- `c'` is the cursor `c` after the characters `w`. -/
def Moves (c : Cursor) (w : List Char) (c' : Cursor) : Prop :=
  c.rest = w ++ c'.rest ∧ c'.pos = c.pos + w.length

theorem Moves.refl (c : Cursor) : c.Moves [] c := ⟨rfl, rfl⟩

theorem Moves.trans {c c₁ c₂ : Cursor} {w₁ w₂ : List Char} (h₁ : c.Moves w₁ c₁)
    (h₂ : c₁.Moves w₂ c₂) : c.Moves (w₁ ++ w₂) c₂ := by
  refine ⟨?_, ?_⟩
  · rw [h₁.1, h₂.1, List.append_assoc]
  · rw [h₂.2, h₁.2, List.length_append]
    omega

theorem Moves.unique {c d d' : Cursor} {w : List Char} (h : c.Moves w d) (h' : c.Moves w d') :
    d = d' := by
  obtain ⟨pos, rest⟩ := d
  obtain ⟨pos', rest'⟩ := d'
  rw [Cursor.mk.injEq]
  exact ⟨h.2.trans h'.2.symm, List.append_cancel_left (h.1.symm.trans h'.1)⟩

theorem Moves.advance_eq {c c' : Cursor} {w : List Char} (h : c.Moves w c') :
    c.advance w.length = c' := by
  obtain ⟨hrest, hpos⟩ := h
  simp [advance, hrest, ← hpos]

theorem Moves.slice {c c' : Cursor} {w : List Char} (h : c.Moves w c') :
    c.slice c'.pos = w := by
  rw [Cursor.slice, h.2, Nat.add_sub_cancel_left, h.1, List.take_left]

theorem Moves.cons {c c' : Cursor} {ch : Char} {rest w : List Char} (hc : c.rest = ch :: rest)
    (h : (c.advance 1).Moves w c') : c.Moves (ch :: w) c' := by
  have h₁ : c.Moves [ch] (c.advance 1) := by simp [Moves, advance, hc]
  exact h₁.trans h

theorem Moves.tail {c c' : Cursor} {ch : Char} {w : List Char} (h : c.Moves (ch :: w) c') :
    (c.advance 1).Moves w c' := by
  refine ⟨by simp [h.1], ?_⟩
  rw [h.2, List.length_cons, advance_pos, h.1, List.cons_append, List.length_cons]
  omega

theorem moves_advance {c : Cursor} {n : Nat} (h : n ≤ c.rest.length) :
    c.Moves (c.rest.take n) (c.advance n) := by
  refine ⟨(List.take_append_drop n c.rest).symm, ?_⟩
  rw [advance_pos, List.length_take, Nat.min_eq_left h]

/-- Advancing by the length of a text that comes next. -/
theorem advance_append (p : Nat) (w r : List Char) :
    (⟨p, w ++ r⟩ : Cursor).advance w.length = ⟨p + w.length, r⟩ := by
  simp [advance]

theorem advance_one {c : Cursor} {ch : Char} {r : List Char} (h : c.rest = ch :: r) :
    c.advance 1 = ⟨c.pos + 1, r⟩ := by
  simp [advance, h]

theorem advance_one_cons (p : Nat) (ch : Char) (r : List Char) :
    (⟨p, ch :: r⟩ : Cursor).advance 1 = ⟨p + 1, r⟩ := by
  simp [advance]

theorem startsWith_two {c : Cursor} (a b : Char) :
    c.startsWith [a, b] = true ↔ ∃ rest, c.rest = a :: b :: rest := by
  rw [Cursor.startsWith, List.isPrefixOf_iff_prefix]
  constructor
  · rintro ⟨rest, hrest⟩
    exact ⟨rest, hrest.symm⟩
  · rintro ⟨rest, hrest⟩
    exact ⟨rest, hrest.symm⟩

end Cursor

namespace Swift

open Text

/-- What holds of the characters of a text is decided by going through the text. The instance for
all characters would be found first otherwise, and never end. -/
instance decidableForallMem {p : Char → Prop} [DecidablePred p] (cs : List Char) :
    Decidable (∀ c ∈ cs, p c) :=
  List.decidableBAll p cs

/-! ## Block comments -/

theorem commentLength?_append {depth : Int} {passed n : Nat} {cs : List Char} (r : List Char)
    (h : commentLength? depth passed cs = some n) :
    commentLength? depth passed (cs ++ r) = some n := by
  fun_induction commentLength? depth passed cs with
  | case1 depth passed rest ih => simpa [commentLength?] using ih h
  | case2 passed rest => simpa [commentLength?] using h
  | case3 depth passed rest hd ih => simpa [commentLength?, hd] using ih h
  | case4 depth passed ch rest hopen hclose ih =>
    cases rest with
    | nil => simp [commentLength?] at h
    | cons d ds =>
      simp only [List.cons_append]
      rw [commentLength?]
      · exact ih h
      · intro tl hch htl
        obtain ⟨rfl, -⟩ := List.cons.inj htl
        exact hopen ds hch rfl
      · intro tl hch htl
        obtain ⟨rfl, -⟩ := List.cons.inj htl
        exact hclose ds hch rfl
  | case5 => simp at h

theorem commentLength?_add (depth : Int) (passed k : Nat) (cs : List Char) :
    commentLength? depth (passed + k) cs = (commentLength? depth passed cs).map (· + k) := by
  fun_induction commentLength? depth passed cs with
  | case1 depth passed rest ih =>
    rw [commentLength?, ← ih]
    congr 1
    omega
  | case2 passed rest =>
    simp only [commentLength?, if_true, Option.map_some]
    congr 1
    omega
  | case3 depth passed rest hdepth ih =>
    rw [commentLength?, if_neg hdepth, ← ih]
    congr 1
    omega
  | case4 depth passed ch rest hopen hclose ih =>
    rw [commentLength?, ← ih]
    · congr 1
      omega
    · exact hopen
    · exact hclose
  | case5 => rfl

/-- A block comment is passed from its opening on. -/
theorem skipBlockComment_eq {c : Cursor} {rest : List Char} (h : c.rest = '/' :: '*' :: rest) :
    skipBlockComment c =
      match commentLength? 1 0 rest with
      | some n => .ok (c.advance (n + 2))
      | none => .error (.unterminated .blockComment c.pos) := by
  have hlength : commentLength? 0 0 c.rest = (commentLength? 1 0 rest).map (· + 2) := by
    rw [h, commentLength?]
    exact commentLength?_add 1 0 2 rest
  rw [skipBlockComment, hlength]
  cases commentLength? 1 0 rest <;> rfl

/-- A comment ends inside the text, and what follows its end has no part in it. -/
theorem commentLength?_take {depth : Int} {passed n : Nat} {cs : List Char}
    (h : commentLength? depth passed cs = some n) :
    ∃ k, n = passed + k ∧ k ≤ cs.length ∧ commentLength? depth passed (cs.take k) = some n := by
  fun_induction commentLength? depth passed cs with
  | case1 depth passed rest ih =>
    obtain ⟨k, hn, hk, htake⟩ := ih h
    refine ⟨k + 2, by omega, by simp only [List.length_cons]; omega, ?_⟩
    simpa [commentLength?] using htake
  | case2 passed rest =>
    obtain rfl := Option.some.inj h
    exact ⟨2, rfl, by simp only [List.length_cons]; omega, by simp [commentLength?]⟩
  | case3 depth passed rest hd ih =>
    obtain ⟨k, hn, hk, htake⟩ := ih h
    refine ⟨k + 2, by omega, by simp only [List.length_cons]; omega, ?_⟩
    simpa [commentLength?, hd] using htake
  | case4 depth passed ch rest hopen hclose ih =>
    obtain ⟨k, hn, hk, htake⟩ := ih h
    refine ⟨k + 1, by omega, by simp only [List.length_cons]; omega, ?_⟩
    rw [List.take_succ_cons, commentLength?]
    · exact htake
    · intro tl hch htl
      obtain ⟨rest', rfl⟩ : ∃ rest', rest = '*' :: rest' := by
        cases rest with
        | nil => simp at htl
        | cons d ds =>
          cases k with
          | zero => simp at htl
          | succ k => exact ⟨ds, by rw [(List.cons.inj htl).1]⟩
      exact hopen rest' hch rfl
    · intro tl hch htl
      obtain ⟨rest', rfl⟩ : ∃ rest', rest = '/' :: rest' := by
        cases rest with
        | nil => simp at htl
        | cons d ds =>
          cases k with
          | zero => simp at htl
          | succ k => exact ⟨ds, by rw [(List.cons.inj htl).1]⟩
      exact hclose rest' hch rfl
  | case5 => simp at h

/-- A text that ends a block comment which has just been opened. -/
def EndsComment (body : List Char) : Prop := commentLength? 1 0 body = some body.length

theorem EndsComment.append {body : List Char} (h : EndsComment body) (r : List Char) :
    commentLength? 1 0 (body ++ r) = some body.length := commentLength?_append r h

theorem exists_endsComment {cs : List Char} {n : Nat} (h : commentLength? 1 0 cs = some n) :
    ∃ body r, cs = body ++ r ∧ body.length = n ∧ EndsComment body := by
  obtain ⟨k, hn, hk, htake⟩ := commentLength?_take h
  have hlen : (cs.take k).length = n := by rw [List.length_take]; omega
  exact ⟨cs.take k, cs.drop k, (List.take_append_drop k cs).symm, hlen, by rw [EndsComment, htake, hlen]⟩

/-! ## Line comments -/

theorem lineLength_slash (cs : List Char) : lineLength ('/' :: cs) = lineLength cs + 1 := rfl

/-- A text without line ends. -/
def InLine (line : List Char) : Prop := ∀ ch ∈ line, isLineEnd ch = false

/-- Nothing follows on the line. -/
def AtLineEnd (r : List Char) : Prop := ∀ ch ∈ r.head?, isLineEnd ch = true

theorem atLineEnd_nil : AtLineEnd [] := by simp [AtLineEnd]

theorem takeWhile_append_of_all {α : Type} {p : α → Bool} {xs ys : List α}
    (hx : ∀ x ∈ xs, p x = true) (hy : ∀ y ∈ ys.head?, p y = false) :
    (xs ++ ys).takeWhile p = xs := by
  rw [List.takeWhile_append_of_pos hx]
  cases ys with
  | nil => simp
  | cons y ys => simp [hy y rfl]

theorem lineLength_append {line r : List Char} (hl : InLine line) (hr : AtLineEnd r) :
    lineLength (line ++ r) = line.length := by
  rw [lineLength, takeWhile_append_of_all]
  · intro ch hch
    simp [hl ch hch]
  · intro ch hch
    simp [hr ch hch]

theorem exists_inLine (cs : List Char) :
    ∃ line r, cs = line ++ r ∧ line.length = lineLength cs ∧ InLine line ∧ AtLineEnd r := by
  refine ⟨cs.takeWhile fun ch => !isLineEnd ch, cs.dropWhile fun ch => !isLineEnd ch,
    List.takeWhile_append_dropWhile.symm, rfl, ?_, ?_⟩
  · intro ch hch
    have := List.all_eq_true.1 (List.all_takeWhile (l := cs)) ch hch
    simpa using this
  · intro ch hch
    have := List.head?_dropWhile_not (fun ch => !isLineEnd ch) cs
    rw [Option.mem_def.1 hch] at this
    simpa using this

/-! ## Trivia -/

/-- A run of white space and comments in front of `r`. -/
inductive Trivia : List Char → List Char → Prop
  | nil {r : List Char} : Trivia [] r
  | layout {ch : Char} {w r : List Char} : isLayout ch = true → Trivia w r → Trivia (ch :: w) r
  | line {line w r : List Char} : InLine line → AtLineEnd (w ++ r) → Trivia w r →
      Trivia ('/' :: '/' :: (line ++ w)) r
  | block {body w r : List Char} : EndsComment body → Trivia w r →
      Trivia ('/' :: '*' :: (body ++ w)) r

/-- No trivia comes next. -/
def Solid : List Char → Prop
  | '/' :: '/' :: _ => False
  | '/' :: '*' :: _ => False
  | ch :: _ => isLayout ch = false
  | [] => True

theorem isLayout_of_isLineEnd {ch : Char} (h : isLineEnd ch = true) : isLayout ch = true := by
  simp [isLayout, h]

theorem skipTrivia_layout {ch : Char} (h : isLayout ch = true) (p : Nat) (r : List Char) :
    skipTrivia ⟨p, ch :: r⟩ = skipTrivia ⟨p + 1, r⟩ := by
  have hslash : ch ≠ '/' := by
    rintro rfl
    exact absurd h (by decide)
  rw [skipTrivia]
  split <;> rename_i heq
  · exact absurd (List.cons.inj heq).1 hslash
  · exact absurd (List.cons.inj heq).1 hslash
  · obtain ⟨rfl, rfl⟩ := List.cons.inj heq
    rw [if_pos h, Cursor.advance_one_cons]
  · simp at heq

theorem skipTrivia_line {c : Cursor} {rest : List Char} (hrest : c.rest = '/' :: '/' :: rest) :
    skipTrivia c = skipTrivia (c.advance (lineLength rest + 2)) := by
  conv => lhs; rw [skipTrivia]
  split <;> rename_i heq
  · rw [hrest] at heq
    simp only [List.cons.injEq, true_and] at heq
    rw [heq]
  · simp [hrest] at heq
  · rename_i hline _
    obtain ⟨rfl, rfl⟩ := List.cons.inj (hrest.symm.trans heq)
    exact absurd rfl (hline _ rfl)
  · simp [hrest] at heq

theorem skipTrivia_block {c : Cursor} {rest : List Char} (hrest : c.rest = '/' :: '*' :: rest) :
    skipTrivia c =
      match commentLength? 1 0 rest with
      | some n => skipTrivia (c.advance (n + 2))
      | none => .error (.unterminated .blockComment c.pos) := by
  conv => lhs; rw [skipTrivia]
  split <;> rename_i heq
  · simp [hrest] at heq
  · rw [hrest] at heq
    simp only [List.cons.injEq, true_and] at heq
    subst heq
    cases commentLength? 1 0 rest <;> rfl
  · rename_i hblock
    obtain ⟨rfl, rfl⟩ := List.cons.inj (hrest.symm.trans heq)
    exact absurd rfl (hblock _ rfl)
  · simp [hrest] at heq

theorem skipTrivia_lineComment (p : Nat) {line r : List Char} (hl : InLine line)
    (hr : AtLineEnd r) :
    skipTrivia ⟨p, '/' :: '/' :: (line ++ r)⟩ = skipTrivia ⟨p + (line.length + 2), r⟩ := by
  rw [skipTrivia_line rfl, lineLength_append hl hr]
  exact congrArg skipTrivia (Cursor.advance_append p ('/' :: '/' :: line) r)

theorem skipTrivia_blockComment (p : Nat) {body : List Char} (r : List Char)
    (h : EndsComment body) :
    skipTrivia ⟨p, '/' :: '*' :: (body ++ r)⟩ = skipTrivia ⟨p + (body.length + 2), r⟩ := by
  rw [skipTrivia_block rfl, h.append r]
  exact congrArg skipTrivia (Cursor.advance_append p ('/' :: '*' :: body) r)

/-- Trivia is passed, and the reader goes on behind it. -/
theorem skipTrivia_append {w r : List Char} (h : Trivia w r) (p : Nat) :
    skipTrivia ⟨p, w ++ r⟩ = skipTrivia ⟨p + w.length, r⟩ := by
  induction h generalizing p with
  | nil => rfl
  | layout hch _ ih =>
    rw [List.cons_append, skipTrivia_layout hch, ih]
    congr 2
    simp only [List.length_cons]
    omega
  | line hl hr _ ih =>
    simp only [List.cons_append, List.append_assoc]
    rw [skipTrivia_lineComment p hl hr, ih]
    congr 2
    simp only [List.length_cons, List.length_append]
    omega
  | block hb _ ih =>
    simp only [List.cons_append, List.append_assoc]
    rw [skipTrivia_blockComment p _ hb, ih]
    congr 2
    simp only [List.length_cons, List.length_append]
    omega

/-- Where no trivia comes next, nothing is passed. -/
theorem skipTrivia_solid {r : List Char} (h : Solid r) (p : Nat) :
    skipTrivia ⟨p, r⟩ = .ok ⟨p, r⟩ := by
  rw [skipTrivia]
  split <;> rename_i heq
  · rw [show r = _ from heq] at h
    exact absurd h id
  · rw [show r = _ from heq] at h
    exact absurd h id
  · rename_i ch rest hline hblock
    rw [show r = _ from heq, Solid] at h
    · simp [h]
    · exact fun tl hch htl => hline tl hch htl
    · exact fun tl hch htl => hblock tl hch htl
  · rfl

theorem skipTrivia_text {w r : List Char} (hw : Trivia w r) (hr : Solid r) (p : Nat) :
    skipTrivia ⟨p, w ++ r⟩ = .ok ⟨p + w.length, r⟩ := by
  rw [skipTrivia_append hw, skipTrivia_solid hr]

/-- All that is ever passed is trivia, and no trivia comes next where the reader stops. -/
theorem skipTrivia_spec {c c' : Cursor} (h : skipTrivia c = .ok c') :
    ∃ w, c.Moves w c' ∧ Trivia w c'.rest ∧ Solid c'.rest := by
  fun_induction skipTrivia c with
  | case1 c rest hrest ih =>
    obtain ⟨w, hmoves, hw, hsolid⟩ := ih h
    obtain ⟨line, r, rfl, hlen, hl, hr⟩ := exists_inLine rest
    have hfirst : c.Moves ('/' :: '/' :: line) (c.advance (lineLength (line ++ r) + 2)) := by
      simp [Cursor.Moves, Cursor.advance, hrest, ← hlen]
    have hwr : r = w ++ c'.rest := by
      rw [← hmoves.1]
      simp [hrest, ← hlen]
    exact ⟨_, hfirst.trans hmoves, .line hl (hwr ▸ hr) hw, hsolid⟩
  | case2 c rest hrest n hn ih =>
    obtain ⟨w, hmoves, hw, hsolid⟩ := ih h
    obtain ⟨body, r, rfl, rfl, hb⟩ := exists_endsComment hn
    have hfirst : c.Moves ('/' :: '*' :: body) (c.advance (body.length + 2)) := by
      simp [Cursor.Moves, Cursor.advance, hrest]
    exact ⟨_, hfirst.trans hmoves, .block hb hw, hsolid⟩
  | case3 => simp at h
  | case4 c ch tl _ _ hrest hch ih =>
    obtain ⟨w, hmoves, hw, hsolid⟩ := ih h
    exact ⟨ch :: w, .cons hrest hmoves, .layout hch hw, hsolid⟩
  | case5 c ch tl hline hblock hrest hch =>
    obtain rfl := Except.ok.inj h
    refine ⟨[], .refl c, .nil, ?_⟩
    rw [hrest, Solid]
    · simpa using hch
    · exact fun tl' h₁ h₂ => hline tl' h₁ h₂
    · exact fun tl' h₁ h₂ => hblock tl' h₁ h₂
  | case6 c hrest =>
    obtain rfl := Except.ok.inj h
    exact ⟨[], .refl c, .nil, by rw [hrest]; trivial⟩

/-- Only a block comment without an end cannot be passed. -/
theorem skipTrivia_error {c : Cursor} {e : SyntaxError} (h : skipTrivia c = .error e) :
    ∃ w d rest, c.Moves w d ∧ Trivia w d.rest ∧ d.rest = '/' :: '*' :: rest ∧
      commentLength? 1 0 rest = none := by
  fun_induction skipTrivia c with
  | case1 c rest hrest ih =>
    obtain ⟨w, d, tail, hmoves, hw, htail, hnone⟩ := ih h
    obtain ⟨line, r, rfl, hlen, hl, hr⟩ := exists_inLine rest
    have hfirst : c.Moves ('/' :: '/' :: line) (c.advance (lineLength (line ++ r) + 2)) := by
      simp [Cursor.Moves, Cursor.advance, hrest, ← hlen]
    have hwr : r = w ++ d.rest := by
      rw [← hmoves.1]
      simp [hrest, ← hlen]
    exact ⟨_, d, tail, hfirst.trans hmoves, .line hl (hwr ▸ hr) hw, htail, hnone⟩
  | case2 c rest hrest n hn ih =>
    obtain ⟨w, d, tail, hmoves, hw, htail, hnone⟩ := ih h
    obtain ⟨body, r, rfl, rfl, hb⟩ := exists_endsComment hn
    have hfirst : c.Moves ('/' :: '*' :: body) (c.advance (body.length + 2)) := by
      simp [Cursor.Moves, Cursor.advance, hrest]
    exact ⟨_, d, tail, hfirst.trans hmoves, .block hb hw, htail, hnone⟩
  | case3 c rest hrest hnone => exact ⟨[], c, rest, .refl c, .nil, hrest, hnone⟩
  | case4 c ch tl _ _ hrest hch ih =>
    obtain ⟨w, d, tail, hmoves, hw, htail, hnone⟩ := ih h
    exact ⟨ch :: w, d, tail, .cons hrest hmoves, .layout hch hw, htail, hnone⟩
  | case5 | case6 => simp at h

/-! ## Trivia on a line -/

/-- A run of blanks and comments in front of `r`, on one line but for what block comments hold. A
line comment is the last of it. -/
inductive InlineTrivia : List Char → List Char → Prop
  | nil {r : List Char} : InlineTrivia [] r
  | blank {ch : Char} {w r : List Char} : isBlank ch = true → InlineTrivia w r →
      InlineTrivia (ch :: w) r
  | line {line r : List Char} : InLine line → AtLineEnd r → InlineTrivia ('/' :: '/' :: line) r
  | block {body w r : List Char} : EndsComment body → InlineTrivia w r →
      InlineTrivia ('/' :: '*' :: (body ++ w)) r

/-- Neither a blank nor a comment comes next. -/
def InlineSolid : List Char → Prop
  | '/' :: '/' :: _ => False
  | '/' :: '*' :: _ => False
  | ch :: _ => isBlank ch = false
  | [] => True

theorem isBlank_of_isLineEnd {ch : Char} (h : isLineEnd ch = true) : isBlank ch = false := by
  simp only [isLineEnd, Bool.or_eq_true, beq_iff_eq] at h
  rcases h with rfl | rfl <;> rfl

theorem AtLineEnd.inlineSolid {r : List Char} (h : AtLineEnd r) : InlineSolid r := by
  cases r with
  | nil => trivial
  | cons ch rest =>
    have hch : isLineEnd ch = true := h ch rfl
    have hslash : ch ≠ '/' := by
      rintro rfl
      exact absurd hch (by decide)
    rw [InlineSolid]
    · exact isBlank_of_isLineEnd hch
    · exact fun _ h₁ _ => hslash h₁
    · exact fun _ h₁ _ => hslash h₁

theorem skipInlineTrivia_blank {ch : Char} (h : isBlank ch = true) (p : Nat) (r : List Char) :
    skipInlineTrivia ⟨p, ch :: r⟩ = skipInlineTrivia ⟨p + 1, r⟩ := by
  have hslash : ch ≠ '/' := by
    rintro rfl
    exact absurd h (by decide)
  rw [skipInlineTrivia]
  split <;> rename_i heq
  · exact absurd (List.cons.inj heq).1 hslash
  · exact absurd (List.cons.inj heq).1 hslash
  · obtain ⟨rfl, rfl⟩ := List.cons.inj heq
    rw [if_pos h, Cursor.advance_one_cons]
  · simp at heq

theorem skipInlineTrivia_line {c : Cursor} {rest : List Char}
    (hrest : c.rest = '/' :: '/' :: rest) :
    skipInlineTrivia c = .ok (c.advance (lineLength rest + 2)) := by
  rw [skipInlineTrivia]
  split <;> rename_i heq
  · rw [hrest] at heq
    simp only [List.cons.injEq, true_and] at heq
    rw [heq]
  · simp [hrest] at heq
  · rename_i hline _
    obtain ⟨rfl, rfl⟩ := List.cons.inj (hrest.symm.trans heq)
    exact absurd rfl (hline _ rfl)
  · simp [hrest] at heq

theorem skipInlineTrivia_block {c : Cursor} {rest : List Char}
    (hrest : c.rest = '/' :: '*' :: rest) :
    skipInlineTrivia c =
      match commentLength? 1 0 rest with
      | some n => skipInlineTrivia (c.advance (n + 2))
      | none => .error (.unterminated .blockComment c.pos) := by
  conv => lhs; rw [skipInlineTrivia]
  split <;> rename_i heq
  · simp [hrest] at heq
  · rw [hrest] at heq
    simp only [List.cons.injEq, true_and] at heq
    subst heq
    cases commentLength? 1 0 rest <;> rfl
  · rename_i hblock
    obtain ⟨rfl, rfl⟩ := List.cons.inj (hrest.symm.trans heq)
    exact absurd rfl (hblock _ rfl)
  · simp [hrest] at heq

theorem skipInlineTrivia_lineComment (p : Nat) {line r : List Char} (hl : InLine line)
    (hr : AtLineEnd r) :
    skipInlineTrivia ⟨p, '/' :: '/' :: (line ++ r)⟩ = .ok ⟨p + (line.length + 2), r⟩ := by
  rw [skipInlineTrivia_line rfl, lineLength_append hl hr]
  exact congrArg Except.ok (Cursor.advance_append p ('/' :: '/' :: line) r)

theorem skipInlineTrivia_blockComment (p : Nat) {body : List Char} (r : List Char)
    (h : EndsComment body) :
    skipInlineTrivia ⟨p, '/' :: '*' :: (body ++ r)⟩
      = skipInlineTrivia ⟨p + (body.length + 2), r⟩ := by
  rw [skipInlineTrivia_block rfl, h.append r]
  exact congrArg skipInlineTrivia (Cursor.advance_append p ('/' :: '*' :: body) r)

/-- Where neither a blank nor a comment comes next, nothing is passed. -/
theorem skipInlineTrivia_solid {r : List Char} (h : InlineSolid r) (p : Nat) :
    skipInlineTrivia ⟨p, r⟩ = .ok ⟨p, r⟩ := by
  rw [skipInlineTrivia]
  split <;> rename_i heq
  · rw [show r = _ from heq] at h
    exact absurd h id
  · rw [show r = _ from heq] at h
    exact absurd h id
  · rename_i ch rest hline hblock
    rw [show r = _ from heq, InlineSolid] at h
    · simp [h]
    · exact fun tl hch htl => hline tl hch htl
    · exact fun tl hch htl => hblock tl hch htl
  · rfl

/-- Trivia on a line is passed. -/
theorem skipInlineTrivia_text {w r : List Char} (h : InlineTrivia w r) (hr : InlineSolid r)
    (p : Nat) : skipInlineTrivia ⟨p, w ++ r⟩ = .ok ⟨p + w.length, r⟩ := by
  induction h generalizing p with
  | nil => exact skipInlineTrivia_solid hr p
  | blank hch _ ih =>
    rw [List.cons_append, skipInlineTrivia_blank hch, ih hr]
    congr 2
    simp only [List.length_cons]
    omega
  | line hl hend =>
    simp only [List.cons_append]
    rw [skipInlineTrivia_lineComment p hl hend]
    rfl
  | block hb _ ih =>
    simp only [List.cons_append, List.append_assoc]
    rw [skipInlineTrivia_blockComment p _ hb, ih hr]
    congr 2
    simp only [List.length_cons, List.length_append]
    omega

theorem skipInlineTrivia_spec {c c' : Cursor} (h : skipInlineTrivia c = .ok c') :
    ∃ w, c.Moves w c' ∧ InlineTrivia w c'.rest ∧ InlineSolid c'.rest := by
  fun_induction skipInlineTrivia c with
  | case1 c rest hrest =>
    obtain rfl := Except.ok.inj h
    obtain ⟨line, r, rfl, hlen, hl, hr⟩ := exists_inLine rest
    have hr' : (c.advance (lineLength (line ++ r) + 2)).rest = r := by simp [hrest, ← hlen]
    refine ⟨'/' :: '/' :: line, ?_, ?_, ?_⟩
    · simp [Cursor.Moves, Cursor.advance, hrest, ← hlen]
    · rw [hr']
      exact .line hl hr
    · rw [hr']
      exact hr.inlineSolid
  | case2 c rest hrest n hn ih =>
    obtain ⟨w, hmoves, hw, hsolid⟩ := ih h
    obtain ⟨body, r, rfl, rfl, hb⟩ := exists_endsComment hn
    have hfirst : c.Moves ('/' :: '*' :: body) (c.advance (body.length + 2)) := by
      simp [Cursor.Moves, Cursor.advance, hrest]
    exact ⟨_, hfirst.trans hmoves, .block hb hw, hsolid⟩
  | case3 => simp at h
  | case4 c ch tl _ _ hrest hch ih =>
    obtain ⟨w, hmoves, hw, hsolid⟩ := ih h
    exact ⟨ch :: w, .cons hrest hmoves, .blank hch hw, hsolid⟩
  | case5 c ch tl hline hblock hrest hch =>
    obtain rfl := Except.ok.inj h
    refine ⟨[], .refl c, .nil, ?_⟩
    rw [hrest, InlineSolid]
    · simpa using hch
    · exact fun tl' h₁ h₂ => hline tl' h₁ h₂
    · exact fun tl' h₁ h₂ => hblock tl' h₁ h₂
  | case6 c hrest =>
    obtain rfl := Except.ok.inj h
    exact ⟨[], .refl c, .nil, by rw [hrest]; trivial⟩

end Swift

end LocalizedKeys
