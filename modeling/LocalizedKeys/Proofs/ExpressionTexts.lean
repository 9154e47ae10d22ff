import LocalizedKeys.Proofs.Frames
import LocalizedKeys.Proofs.Printed
import LocalizedKeys.Proofs.Seams
import Mathlib.Data.List.DropRight

/-!
# Texts of expressions

What is kept of an expression is a text: it goes from the first character that is no white space
up to the last one that counts. Such a text can be put where an argument is expected
(`IsExpressionText`), for the pass goes through it to its end, whatever comes behind it. A raw value
ends with its line and an argument does not, but nothing that ends an argument has been passed in a
raw value either (`Passes.rebase`).

An argument is read from behind the trivia in front of it, so comments at the front of the text are
lost when it is read again (`readsArgument_text`). A text can only begin with one if something stood
in front of the comment that is white space and yet no trivia.
-/

namespace LocalizedKeys.Swift

open Text

/-! ## Other stop characters -/

theorem map_inside_eq_pass {ε : Type} {m : Except ε Move} {outer fs : List Frame} {extra : Nat}
    {counts : Bool} (h : m.map (Move.inside outer) = .ok (.pass extra fs counts)) :
    ∃ inner, m = .ok (.pass extra inner counts) ∧ fs = inner ++ outer := by
  cases m with
  | error e => simp [Except.map] at h
  | ok m =>
    cases m with
    | stop => simp [Except.map, Move.inside] at h
    | pass extra' inner counts' =>
      simp only [Except.map, Move.inside, Except.ok.injEq, Move.pass.injEq] at h
      obtain ⟨rfl, rfl, rfl⟩ := h
      exact ⟨inner, rfl, rfl⟩

variable {stops stops' : List Char}

/-- The frame takes every character for code that the stop characters let through. -/
def Frame.TakesCode (stops : List Char) (f : Frame) : Prop :=
  ∀ c, c ∉ stops → isClosingBracket c = false → ∀ outer pos rest,
    f.move outer pos c rest = codeMove (f :: outer) pos c rest

theorem Frame.takesCode_expression
    (hstops : ∀ c ∈ stops', c ∈ stops ∨ isClosingBracket c = true) :
    (Frame.expression stops').TakesCode stops := by
  intro c hc hclosing outer pos rest
  have hstop : c ∉ stops' := fun hmem => (hstops c hmem).elim hc (by simp [hclosing])
  rw [Frame.move, if_neg (by simp [hstop, hclosing])]

theorem Frame.takesCode_bracket {close : Char} (hclose : isClosingBracket close = true) :
    (Frame.bracket close).TakesCode stops := by
  intro c _ hclosing outer pos rest
  have hne : c ≠ close := by
    rintro rfl
    simp [hclose] at hclosing
  rw [Frame.move, if_neg hne, if_neg (by simp [hclosing])]

/-- A step with an expression at the bottom of the stack is one with other code there, too. -/
theorem Frame.move_rebase {f : Frame} (hf : f.TakesCode stops) {base inner outer fs : List Frame}
    {frame : Frame} {pos extra : Nat} {c : Char} {rest : List Char} {counts : Bool}
    (hinner : inner ++ [.expression stops] = frame :: outer)
    (h : frame.move outer pos c rest = .ok (.pass extra fs counts)) :
    ∃ opened frame' outer', fs = opened ++ [.expression stops] ∧
      inner ++ f :: base = frame' :: outer' ∧
      frame'.move outer' pos c rest = .ok (.pass extra (opened ++ f :: base) counts) := by
  cases inner with
  | nil =>
    -- only here are the stop characters looked at
    obtain ⟨rfl, rfl⟩ := List.cons.inj hinner
    simp only [Frame.move] at h
    split at h
    · simp at h
    · rename_i hgoes
      simp only [Bool.or_eq_true, List.contains_iff_mem, not_or] at hgoes
      have hmoved := codeMove_inside [] [.expression stops] pos c rest
      rw [List.nil_append, h] at hmoved
      obtain ⟨opened, hcode, rfl⟩ := map_inside_eq_pass hmoved.symm
      refine ⟨opened, f, base, rfl, rfl, ?_⟩
      have hmoved' := codeMove_inside [] (f :: base) pos c rest
      rw [List.nil_append, hcode] at hmoved'
      rw [hf c hgoes.1 (by simpa using hgoes.2), hmoved']
      rfl
  | cons x inner =>
    rw [List.cons_append] at hinner
    obtain ⟨rfl, rfl⟩ := List.cons.inj hinner
    rw [Frame.move_inside] at h
    obtain ⟨opened, hmoved, rfl⟩ := map_inside_eq_pass h
    refine ⟨opened, x, inner ++ f :: base, rfl, rfl, ?_⟩
    rw [Frame.move_inside, hmoved]
    rfl

/-- A passage stays one with other code at the bottom of the stack. -/
theorem Passes.rebase {f : Frame} (hf : f.TakesCode stops) (base : List Frame)
    {inner inner' : List Frame} {w r : List Char} {k : Nat}
    (h : Passes (inner ++ [.expression stops]) w k (inner' ++ [.expression stops]) r) :
    Passes (inner ++ f :: base) w k (inner' ++ f :: base) r := by
  generalize hinner : inner ++ [.expression stops] = fs at h
  generalize hinner' : inner' ++ [.expression stops] = fs' at h
  -- the frame at the bottom of the stack stays there, so that what lies on it is generalized
  induction h generalizing inner with
  | nil =>
    obtain rfl := List.append_cancel_right (hinner.trans hinner'.symm)
    exact .nil
  | step hmove _ ih =>
    obtain ⟨opened, frame', outer', rfl, heq, hmove'⟩ := Frame.move_rebase hf hinner hmove
    rw [heq]
    exact .step hmove' (ih rfl hinner')

/-! ## Up to the last character that counts -/

/-- Nothing opens or closes with what does not count. -/
theorem Frame.move_uncounted {frame : Frame} {outer fs : List Frame} {pos extra : Nat} {c : Char}
    {rest : List Char} (h : frame.move outer pos c rest = .ok (.pass extra fs false)) :
    fs = frame :: outer := by
  generalize hcounts : false = counts at h
  cases Frame.pass_of_move h with
  | code hcode =>
    cases hcode with
    | literal | bracket => simp at hcounts
    | line | block | plain => rfl
  | bracket | interpolation | literal => simp at hcounts

/-- What is passed behind the last character that counts can be left to what follows. -/
theorem Passes.cut {fs fs' : List Frame} {w r : List Char} {k : Nat} (h : Passes fs w k fs' r) :
    Passes fs (w.take k) k fs' (w.drop k ++ r) := by
  suffices hcut : (k = 0 → fs' = fs) ∧ Passes fs (w.take k) k fs' (w.drop k ++ r) from hcut.2
  -- where nothing counts the stack is the old one, so that the cut can be in front of a step
  induction h with
  | nil => exact ⟨fun _ => rfl, .nil⟩
  | @step frame outer fs₁ fs' c v w r k counts hmove hrest ih =>
    obtain ⟨hfs, hpasses⟩ := ih
    by_cases hk : k = 0
    · -- the cut is right behind this step or in front of it
      subst hk
      obtain rfl := hfs rfl
      cases counts with
      | true =>
        have hone := Passes.one hmove
        refine ⟨fun hzero => ?_, ?_⟩
        · simp [lastCounted] at hzero
        · simp only [lastCounted, if_true, List.take_succ_cons, List.take_left, List.drop_succ_cons,
            List.drop_left]
          exact hone
      | false =>
        obtain rfl := Frame.move_uncounted hmove
        exact ⟨fun _ => rfl, .nil⟩
    · have hcounted : lastCounted (v.length + 1) (if counts then v.length + 1 else 0) k
          = (v.length + k) + 1 := by
        rw [lastCounted, if_neg hk]
        omega
      rw [hcounted, List.take_succ_cons, List.drop_succ_cons, List.take_length_add_append,
        List.drop_length_add_append, ← hcounted]
      refine ⟨fun hzero => ?_, ?_⟩
      · omega
      · refine .step ?_ hpasses
        rwa [← List.append_assoc (w.take k), List.take_append_drop]

/-- A stack whose brackets are closed by closing brackets. -/
def Closes (fs : List Frame) : Prop := ∀ close, .bracket close ∈ fs → isClosingBracket close = true

theorem Closes.cons {f : Frame} {fs : List Frame} (h : Closes fs)
    (hf : ∀ close, f = .bracket close → isClosingBracket close = true) : Closes (f :: fs) := by
  intro close hmem
  rcases List.mem_cons.1 hmem with heq | hmem
  · exact hf close heq.symm
  · exact h close hmem

theorem Frame.move_closes {frame : Frame} {outer fs : List Frame} {pos extra : Nat} {c : Char}
    {rest : List Char} {counts : Bool}
    (h : frame.move outer pos c rest = .ok (.pass extra fs counts))
    (hframes : Closes (frame :: outer)) : Closes fs := by
  have houter : Closes outer := fun close hmem => hframes close (List.mem_cons_of_mem _ hmem)
  cases Frame.pass_of_move h with
  | code hcode =>
    cases hcode with
    | literal => exact hframes.cons (by simp)
    | line | block | plain => exact hframes
    | bracket hclose =>
      refine hframes.cons fun other heq => ?_
      obtain rfl := Frame.bracket.inj heq
      exact (isClosingBracket_of_closingBracket? hclose).1
  | bracket | interpolation => exact houter
  | literal hpass =>
    cases hpass with
    | close => exact houter
    | escape | plain => exact hframes
    | interpolation => exact hframes.cons (by simp)

theorem isSpace_of_isClosingBracket {c : Char} (h : isClosingBracket c = true) :
    isSpace c = false := by
  simp only [isClosingBracket, Bool.or_eq_true, beq_iff_eq] at h
  rcases h with (rfl | rfl) | rfl <;> decide

theorem OpenLiteral.closing_pos (l : OpenLiteral) : 0 < l.closing.length := by
  rw [OpenLiteral.closing, List.length_append, List.length_replicate]
  split <;> omega

/-- The delimiter at the front of a text is what is passed with it. -/
theorem eq_closing {l : OpenLiteral} {c : Char} {v rest : List Char}
    (h : l.closing.isPrefixOf (c :: (v ++ rest)) = true)
    (hlength : l.closing.length - 1 = v.length) : l.closing = c :: v := by
  obtain ⟨t, ht⟩ := List.isPrefixOf_iff_prefix.1 h
  have hpos := l.closing_pos
  rw [← List.cons_append] at ht
  exact (List.append_inj ht (by rw [List.length_cons]; omega)).1

/-- What counts and leaves nothing open but the expression ends in something else than white
space. -/
theorem Frame.move_last {frame : Frame} {outer : List Frame} {pos : Nat} {c : Char}
    {v r : List Char} (hframes : Closes (frame :: outer))
    (h : frame.move outer pos c (v ++ r) = .ok (.pass v.length [.expression stops] true)) :
    ∀ x ∈ (c :: v).getLast?, isSpace x = false := by
  have hone : v.length = 0 → isSpace c = false → ∀ x ∈ (c :: v).getLast?, isSpace x = false := by
    intro hv hc x hx
    obtain rfl := List.length_eq_zero_iff.1 hv
    obtain rfl := Option.some.inj hx
    exact hc
  generalize hextra : v.length = extra at h hone
  generalize hfs : [Frame.expression stops] = fs at h
  generalize hcounts : true = counts at h
  cases Frame.pass_of_move h with
  | code hcode =>
    cases hcode with
    | literal | bracket => simp at hfs
    | line | block => simp at hcounts
    | plain => exact hone rfl (by simpa using hcounts)
  | bracket => exact hone rfl (isSpace_of_isClosingBracket (hframes c (List.mem_cons_self ..)))
  | interpolation hc => exact hone rfl (hc ▸ rfl)
  | @literal l _ _ _ hpass =>
    cases hpass with
    | close hclose =>
      -- the delimiter is what is passed
      intro x hx
      have hmem := List.mem_of_getLast? hx
      rw [← eq_closing hclose (by omega), OpenLiteral.closing, List.mem_append] at hmem
      rcases hmem with hmem | hmem
      · rw [List.eq_of_mem_replicate hmem]
        decide
      · rw [List.eq_of_mem_replicate hmem]
        decide
    | escape | interpolation | plain => simp at hfs

/-- What counts to its end and leaves nothing open but the expression does so as a whole, too. -/
theorem Passes.last_counted {fs fs' : List Frame} {w r : List Char} {k : Nat}
    (h : Passes fs w k fs' r) (hfs : Closes fs) (hfs' : fs' = [.expression stops])
    (hk : k = w.length) : ∀ x ∈ w.getLast?, isSpace x = false := by
  induction h with
  | nil => simp
  | @step frame outer fs₁ fs' c v w r k counts hmove hrest ih =>
    have hone : (if counts then v.length + 1 else 0) ≤ v.length + 1 := by split <;> omega
    have hlength : (c :: (v ++ w)).length = v.length + 1 + w.length := by
      rw [List.length_cons, List.length_append]
      omega
    obtain ⟨hcounted, hlast⟩ := (lastCounted_eq_add_iff hone).1 (hk.trans hlength)
    cases w with
    | nil =>
      -- nothing comes behind the step, so that it is the step that counts
      cases hrest
      subst hfs'
      have hcounts : counts = true := by
        cases counts with
        | true => rfl
        | false => simpa using hlast rfl
      subst hcounts
      rw [List.append_nil]
      exact Frame.move_last hfs hmove
    | cons d w =>
      have heq : (c :: (v ++ d :: w)).getLast? = (d :: w).getLast? := by
        rw [← List.cons_append, List.getLast?_append_cons]
      rw [heq]
      exact ih (Frame.move_closes hmove hfs) hfs' hcounted

/-! ## From further on -/

/-- A passage that begins in the same way as another one goes on from where that one ends. -/
theorem Passes.behind {fs fs₁ fs' : List Frame} {v w r : List Char} {k₁ k : Nat}
    (hv : Passes fs v k₁ fs₁ (w ++ r)) (h : Passes fs (v ++ w) k fs' r) :
    ∃ k₂, k = lastCounted v.length k₁ k₂ ∧ Passes fs₁ w k₂ fs' r := by
  generalize htail : w ++ r = tail at hv
  induction hv generalizing k with
  | nil =>
    refine ⟨k, ?_, h⟩
    unfold lastCounted
    split <;> simp_all
  | @step frame outer fs fs₁ c v w₁ tail k₁ counts hmove _ ih =>
    subst htail
    rw [List.cons_append, List.append_assoc] at h
    generalize htext : c :: (v ++ (w₁ ++ w)) = text at h
    -- the other passage begins with the same step, for there is one move at each character
    cases h with
    | nil => simp at htext
    | @step _ _ fs₂ _ c' v' w' _ k' counts' hmove' hrest' =>
      obtain ⟨rfl, htail⟩ := List.cons.inj htext
      have hsame : v' ++ (w' ++ r) = v ++ (w₁ ++ (w ++ r)) := by
        rw [← List.append_assoc, ← htail]
        simp only [List.append_assoc]
      rw [hsame, hmove] at hmove'
      simp only [Except.ok.injEq, Move.pass.injEq] at hmove'
      obtain ⟨hlength, rfl, rfl⟩ := hmove'
      obtain ⟨rfl, rfl⟩ := List.append_inj htail hlength
      obtain ⟨k₂, rfl, hbehind⟩ := ih hrest' rfl
      refine ⟨k₂, ?_, hbehind⟩
      rw [← lastCounted_assoc]
      congr 1
      simp only [List.length_cons, List.length_append]
      omega

/-- What does not count at the front can be left out. -/
theorem Passes.behind_uncounted {fs fs₁ fs' : List Frame} {v w r : List Char}
    (hv : Passes fs v 0 fs₁ (w ++ r)) (h : Passes fs (v ++ w) (v ++ w).length fs' r)
    (hne : v ++ w ≠ []) : Passes fs₁ w w.length fs' r ∧ w ≠ [] := by
  obtain ⟨k, hk, hw⟩ := hv.behind h
  rw [List.length_append] at hk
  obtain ⟨rfl, hnone⟩ := (lastCounted_eq_add_iff (Nat.zero_le _)).1 hk.symm
  refine ⟨hw, ?_⟩
  rintro rfl
  have hv := List.length_eq_zero_iff.1 (hnone rfl).symm
  exact hne (by rw [hv, List.append_nil])

/-! ## Texts -/

/-- A text to which nothing has to be done in order to put it where an argument is expected. -/
structure IsExpressionText (text : List Char) : Prop where
  passes : PassesExpression [',', ')'] text text.length []
  notEmpty : text ≠ []
  head : ∀ c ∈ text.head?, isSpace c = false
  last : ∀ c ∈ text.getLast?, isSpace c = false

theorem IsExpressionText.trim {text : List Char} (h : IsExpressionText text) :
    trim text = text := trim_eq h.head h.last

theorem closes_expression : Closes [.expression stops] := by
  intro close hmem
  simp at hmem

/-- What an expression goes on with is not a stop character. -/
theorem Passes.admits {fs' : List Frame} {c : Char} {w r : List Char} {k : Nat}
    (h : Passes [.expression stops] (c :: w) k fs' r) : (Frame.expression stops).Admits c := by
  generalize htext : c :: w = text at h
  cases h with
  | nil => simp at htext
  | step hmove _ =>
    obtain ⟨rfl, -⟩ := List.cons.inj htext
    intro hmem
    simp [Frame.move, hmem] at hmove

/-- White space at the front can be left out. -/
theorem Passes.dropSpaces {w r : List Char} (h : PassesExpression stops w w.length r) :
    PassesExpression stops (w.dropWhile isSpace) (w.dropWhile isSpace).length r := by
  induction w with
  | nil => exact h
  | cons c w ih =>
    by_cases hc : isSpace c = true
    · rw [List.dropWhile_cons_of_pos hc]
      have hspace := passes_space h.admits hc [] (w ++ r)
      exact ih (hspace.behind_uncounted h (List.cons_ne_nil c w)).1
    · rw [List.dropWhile_cons_of_neg hc]
      exact h

/-- The text of an expression is passed to its end when it stands alone, and there is no white space
around it. -/
theorem passes_text_of_scan {text : String} {c c' : Cursor}
    (h : scanExpression stops c = .ok (text, c')) :
    PassesExpression stops text.toList text.toList.length [] ∧
      (∀ ch ∈ text.toList.head?, isSpace ch = false) ∧
      ∀ ch ∈ text.toList.getLast?, isSpace ch = false := by
  obtain ⟨w, k, -, hpasses, -, rfl⟩ := scanExpression_spec h
  -- the end that does not count is left out, and then the white space at the front
  have hcut := Passes.truncate (s := []) hpasses.cut
  have hlength : (w.take k).length = k := by
    rw [List.length_take, Nat.min_eq_left hpasses.counted_le]
  generalize w.take k = counted at hcut hlength ⊢
  subst hlength
  have htext := hcut.dropSpaces
  have hlast := htext.last_counted closes_expression rfl rfl
  have hhead : ∀ ch ∈ (counted.dropWhile isSpace).head?, isSpace ch = false := by
    intro ch hch
    have := List.head?_dropWhile_not isSpace counted
    rw [Option.mem_def.1 hch] at this
    simpa using this
  have htrim : trim counted = counted.dropWhile isSpace := by
    rw [← trim_eq hhead hlast, trim, trim, List.dropWhile_idempotent]
  rw [String.toList_ofList, htrim]
  exact ⟨htext, hhead, hlast⟩

/-- What is kept of an expression can be put where an argument is expected. -/
theorem isExpressionText_of_scan {text : String} {c c' : Cursor} (hstops : ',' ∈ stops)
    (h : scanExpression stops c = .ok (text, c')) (hne : text.isEmpty = false) :
    IsExpressionText text.toList := by
  obtain ⟨hpasses, hhead, hlast⟩ := passes_text_of_scan h
  have hfewer : ∀ ch ∈ [',', ')'], ch ∈ stops ∨ isClosingBracket ch = true := by
    intro ch hch
    simp only [List.mem_cons, List.not_mem_nil, or_false] at hch
    rcases hch with rfl | rfl
    · exact .inl hstops
    · exact .inr rfl
  refine ⟨@Passes.rebase stops _ (Frame.takesCode_expression hfewer) [] [] [] _ _ _ hpasses, ?_,
    hhead, hlast⟩
  intro hnil
  rw [String.toList_eq_nil_iff] at hnil
  simp [hnil] at hne

/-! ## Some texts -/

theorem isExpressionText_of_plain {text : List Char} (hne : text ≠ [])
    (hplain : ∀ c ∈ text, isPlainChar c = true ∧ isSpace c = false ∧ c ≠ ',') :
    IsExpressionText text := by
  have hspace : ∀ c ∈ text, isSpace c = false := fun c hc => (hplain c hc).2.1
  refine ⟨passes_plain ?_ (fun c hc => ⟨(hplain c hc).1, hspace c hc⟩) [] [], hne,
    fun c hc => hspace c (List.mem_of_mem_head? hc), fun c hc => hspace c (List.mem_of_getLast? hc)⟩
  intro c hc hmem
  simp only [List.mem_cons, List.not_mem_nil, or_false] at hmem
  rcases hmem with rfl | rfl
  · exact (hplain _ hc).2.2 rfl
  · exact absurd (hplain _ hc).1 (by decide)

theorem IsSimple.isExpressionText {text : List Char} (h : IsSimple text) :
    IsExpressionText text := by
  have hpasses := passes_simple (f := .expression [',', ')']) h (by decide) [] (r := []) (by simp)
  obtain ⟨body, rfl, hbody⟩ := h
  refine ⟨hpasses, List.cons_ne_nil _ _, ?_, hpasses.last_counted closes_expression rfl rfl⟩
  intro c hc
  obtain rfl := Option.some.inj hc
  decide

/-! ## Reading them again -/

/-- The expression begins with a comment. -/
def beginsWithComment (expression : String) : Bool :=
  ['/', '/'].isPrefixOf expression.toList || ['/', '*'].isPrefixOf expression.toList

/-- The expression that is read where the text of one was put for an argument: comments that the
text begins with are left out, with the white space around them. -/
def readBack (expression : String) : String :=
  if beginsWithComment expression then
    match skipTrivia (.start expression.toList) with
    | .ok c => String.ofList (trim c.rest)
    | .error _ => expression
  else expression

theorem Solid.append {s r : List Char} (h : Solid s) (hne : s ≠ []) (hr : Firm r) :
    Solid (s ++ r) := by
  obtain ⟨ch, s, rfl⟩ := List.exists_cons_of_ne_nil hne
  rw [List.cons_append]
  by_cases hslash : ch = '/'
  · subst hslash
    have hnext : ∀ d ∈ ['/', '*'], (s ++ r).head? ≠ some d := by
      intro d hd hhead
      cases s with
      | nil => exact hr d hhead (List.mem_cons_of_mem _ (List.mem_cons_of_mem _ hd))
      | cons x s =>
        obtain rfl := Option.some.inj hhead
        simp only [List.mem_cons, List.not_mem_nil, or_false] at hd
        rcases hd with rfl | rfl <;> exact h
    rw [Solid]
    · rfl
    · intro rest _ heq
      exact hnext '/' (by decide) (by rw [heq]; rfl)
    · intro rest _ heq
      exact hnext '*' (by decide) (by rw [heq]; rfl)
  · have hlayout : isLayout ch = false := by
      rw [Solid] at h
      · exact h
      · exact fun _ heq _ => hslash heq
      · exact fun _ heq _ => hslash heq
    exact .of_head hslash hlayout

theorem solid_of_beginsWithComment {text : String} (h : beginsWithComment text = false)
    (hhead : ∀ c ∈ text.toList.head?, isSpace c = false) : Solid text.toList := by
  have hcomment : ∀ d ∈ ['/', '*'], ∀ rest, text.toList ≠ '/' :: d :: rest := by
    intro d hd rest heq
    simp only [List.mem_cons, List.not_mem_nil, or_false] at hd
    rcases hd with rfl | rfl <;> simp [beginsWithComment, heq] at h
  cases hcs : text.toList with
  | nil => trivial
  | cons ch rest =>
    rw [Solid]
    · cases hlayout : isLayout ch with
      | false => rfl
      | true =>
        have hspace := hhead ch (by rw [hcs]; rfl)
        rw [isSpace_of_isLayout hlayout] at hspace
        simp at hspace
    · rintro tail rfl rfl
      exact hcomment '/' (by decide) tail hcs
    · rintro tail rfl rfl
      exact hcomment '*' (by decide) tail hcs

/-- A comment that has no end is not passed. -/
theorem not_passes_open {f : Frame} {outer fs' : List Frame} {rest : List Char} {k : Nat}
    (hf : f.Admits '/') (hnone : commentLength? 1 0 rest = none) :
    ¬Passes (f :: outer) ('/' :: '*' :: rest) k fs' [] := by
  intro h
  generalize hs : '/' :: '*' :: rest = s at h
  cases h with
  | nil => simp at hs
  | step hmove _ =>
    obtain ⟨rfl, htail⟩ := List.cons.inj hs
    rw [List.append_nil, ← htail, Frame.move_slash hf, codeMove] at hmove
    simp [opensLiteral, hnone] at hmove

/-- White space can be passed where an argument is expected. -/
theorem admits_argument {c : Char} (h : isSpace c = true) :
    (Frame.expression [',', ')']).Admits c := by
  simp only [Frame.Admits, List.mem_cons, List.not_mem_nil, or_false]
  rintro (rfl | rfl) <;> exact absurd h (by decide)

/-- Behind the trivia at its front a text goes on, and the rest is an expression, too. -/
theorem IsExpressionText.split {text : List Char} (h : IsExpressionText text) :
    ∃ w s, text = w ++ s ∧ Trivia w s ∧ Solid s ∧ s ≠ [] ∧
      PassesExpression [',', ')'] s s.length [] := by
  have hadmits : ∀ ch, isLayout ch = true → (Frame.expression [',', ')']).Admits ch :=
    fun ch hch => admits_argument (isSpace_of_isLayout hch)
  have hbehind : ∀ {w s : List Char}, Trivia w s → text = w ++ s →
      PassesExpression [',', ')'] s s.length [] ∧ s ≠ [] := by
    intro w s hw htext
    have htrivia := passes_trivia hw hadmits (by decide) []
    have hne := h.notEmpty
    have hpasses := h.passes
    subst htext
    rw [← List.append_nil s] at htrivia
    exact htrivia.behind_uncounted hpasses hne
  cases hskip : skipTrivia (.start text) with
  | error e =>
    -- the pass gets as far as the comment that has no end
    obtain ⟨w, d, rest, ⟨htext, -⟩, hw, hrest, hnone⟩ := skipTrivia_error hskip
    obtain ⟨hpasses, -⟩ := hbehind hw htext
    rw [hrest] at hpasses
    exact absurd hpasses (not_passes_open (by decide) hnone)
  | ok c =>
    obtain ⟨w, ⟨htext, -⟩, hw, hsolid⟩ := skipTrivia_spec hskip
    obtain ⟨hpasses, hne⟩ := hbehind hw htext
    exact ⟨w, c.rest, htext, hw, hsolid, hne, hpasses⟩

theorem trim_ne_nil {cs : List Char} {ch : Char} (hmem : ch ∈ cs) (hch : isSpace ch = false) :
    trim cs ≠ [] := by
  intro hnil
  have hdrop : ∀ {xs : List Char}, ch ∈ xs → ch ∈ xs.dropWhile isSpace := by
    intro xs hxs
    rw [← List.takeWhile_append_dropWhile (p := isSpace) (l := xs), List.mem_append] at hxs
    rcases hxs with hxs | hxs
    · have := List.all_eq_true.1 List.all_takeWhile _ hxs
      simp [hch] at this
    · exact hxs
  have hin : ch ∈ trim cs := List.mem_reverse.2 (hdrop (List.mem_reverse.2 (hdrop hmem)))
  simp [hnil] at hin

/-- **A text is read where an argument is expected.** -/
theorem readsArgument_text {label text : String} (hlabel : IsName label.toList)
    (h : IsExpressionText text.toList) :
    ReadsArgument (printArgument ⟨some label, text⟩) ⟨some label, readBack text⟩ := by
  obtain ⟨w, s, htext, hw, hsolid, hne, hpasses⟩ := h.split
  have hskip : skipTrivia (.start text.toList) = .ok ⟨w.length, s⟩ := by
    have := skipTrivia_text hw hsolid 0
    rwa [← htext, Nat.zero_add] at this
  have hback : readBack text = String.ofList (trim s) := by
    unfold readBack
    split
    · rw [hskip]
    · rename_i hcomment
      have hsame := skipTrivia_solid (solid_of_beginsWithComment (by simpa using hcomment) h.head) 0
      obtain ⟨-, rfl⟩ := Cursor.mk.inj (Except.ok.inj (hsame.symm.trans hskip))
      rw [h.trim, String.ofList_toList]
  have hexpression : (readBack text).isEmpty = false := by
    -- the last character of the text is in there
    obtain ⟨last, hlast⟩ := List.getLast?_isSome.2 hne |> Option.isSome_iff_exists.1
    have hspace : isSpace last = false := by
      refine h.last last ?_
      rw [htext, List.getLast?_append, hlast]
      rfl
    have hne' := trim_ne_nil (List.mem_of_getLast? hlast) hspace
    rw [hback]
    cases hempty : (String.ofList (trim s)).isEmpty with
    | false => rfl
    | true =>
      rw [String.isEmpty_iff] at hempty
      exact absurd (by simpa using congrArg String.toList hempty) hne'
  refine ⟨hlabel.begins.append _, ?_⟩
  intro ch r p hch
  have hfirm : Firm (ch :: r) := .cons (by rcases hch with rfl | rfl <;> decide) r
  have hlead : Trivia (' ' :: w) (s ++ ch :: r) := by
    refine .layout rfl (hw.seam fun hend => ?_)
    obtain ⟨d, s, rfl⟩ := List.exists_cons_of_ne_nil hne
    exact hend
  have hread := readLabel_some hlabel hlead (hsolid.append hne hfirm) (by simp) p
  have hscan := scanExpression_text (Passes.seam (s := []) (r := []) hpasses
    (.inr ⟨by simp [Quiet], hfirm⟩) (.inr (.inl rfl))) (endsArgument r hch)
    (p + label.toList.length + 1 + (' ' :: w).length)
  rw [List.take_length, List.nil_append, ← hback] at hscan
  have hprinted : printArgument ⟨some label, text⟩ ++ ch :: r
      = label.toList ++ ':' :: (' ' :: w ++ (s ++ ch :: r)) := by
    simp [printArgument, htext]
  rw [hprinted]
  exact ⟨_, _, readArgument_run hread hscan hexpression, rfl⟩

end LocalizedKeys.Swift
