import LocalizedKeys.Proofs.Anywhere
import LocalizedKeys.Proofs.CaseLists
import LocalizedKeys.Proofs.ExpressionTexts
import LocalizedKeys.Proofs.Ranges

/-!
# Layout cut off at the end

A declaration that holds no others may end in layout, or in a comment that does. Where that layout
is cut off and a new line follows, the same declaration is read up to the cut
(`ReadsLeaf.spells_cut`): all that can lie across the cut is trivia, which ends there as well.
-/

namespace LocalizedKeys.Swift

open Text Cursor Expansion

variable {w v r x : List Char}

/-! ## What is no layout -/

theorem Solid.not_layout {ch : Char} (h : Solid (ch :: r)) : isLayout ch = false := by
  by_cases hslash : ch = '/'
  · rw [hslash]
    decide
  · rw [Solid] at h
    · exact h
    all_goals exact fun _ heq _ => hslash heq

theorem InlineSolid.not_layout {ch : Char} (h : InlineSolid (ch :: r))
    (hend : isLineEnd ch = false) : isLayout ch = false := by
  by_cases hslash : ch = '/'
  · rw [hslash]
    decide
  · rw [InlineSolid] at h
    · simp [isLayout, h, hend]
    all_goals exact fun _ heq _ => hslash heq

theorem not_layout_of_isNameChar {ch : Char} (h : isNameChar ch = true) : isLayout ch = false := by
  have hspace := (isPlainChar_of_isNameChar h).2
  cases hlay : isLayout ch with
  | false => rfl
  | true => simp [isSpace_of_isLayout hlay] at hspace

/-! ## Trivia -/

/-- Layout at the end of a text lies behind everything that ends with something else. -/
theorem layout_suffix {s y u : List Char} (h : s ++ y = u ++ v) (hv : IsLayoutText v)
    (hs : ∀ ch ∈ s.getLast?, isLayout ch = false) : ∃ z, u = s ++ z ∧ y = z ++ v := by
  rcases List.append_eq_append_iff.1 h with ⟨z, rfl, rfl⟩ | ⟨z, rfl, rfl⟩
  · exact ⟨z, rfl, rfl⟩
  · rcases List.eq_nil_or_concat z with rfl | ⟨z, ch, rfl⟩
    · exact ⟨[], by simp, by simp⟩
    · have hspace := hv ch (by simp)
      simp [hs ch (by simp [List.getLast?_append])] at hspace

theorem forall_mem_some_not_layout {c : Char} (h : isLayout c = false) :
    ∀ ch ∈ some c, isLayout ch = false := by
  intro ch hch
  obtain rfl := Option.some.inj hch
  exact h

theorem commentLength?_last {depth : Int} {passed n : Nat} {cs : List Char}
    (h : commentLength? depth passed cs = some n) :
    ∃ front, cs.take (n - passed) = front ++ ['/'] := by
  fun_induction commentLength? depth passed cs with
  | case1 depth passed rest ih =>
    obtain ⟨front, hfront⟩ := ih h
    obtain ⟨k, hk, -⟩ := commentLength?_take h
    rw [show n - (passed + 2) = k by omega] at hfront
    rw [show n - passed = k + 2 by omega]
    exact ⟨'/' :: '*' :: front, by simp [hfront]⟩
  | case2 passed rest =>
    obtain rfl := Option.some.inj h
    exact ⟨['*'], by rw [Nat.add_sub_cancel_left]; rfl⟩
  | case3 depth passed rest hd ih =>
    obtain ⟨front, hfront⟩ := ih h
    obtain ⟨k, hk, -⟩ := commentLength?_take h
    rw [show n - (passed + 2) = k by omega] at hfront
    rw [show n - passed = k + 2 by omega]
    exact ⟨'*' :: '/' :: front, by simp [hfront]⟩
  | case4 depth passed ch rest hopen hclose ih =>
    obtain ⟨front, hfront⟩ := ih h
    obtain ⟨k, hk, -⟩ := commentLength?_take h
    rw [show n - (passed + 1) = k by omega] at hfront
    rw [show n - passed = k + 1 by omega]
    exact ⟨ch :: front, by simp [hfront]⟩
  | case5 => simp at h

/-- A block comment ends with a slash. -/
theorem EndsComment.getLast? {body : List Char} (h : EndsComment body) :
    body.getLast? = some '/' := by
  obtain ⟨front, hfront⟩ := commentLength?_last h
  rw [Nat.sub_zero, List.take_length] at hfront
  rw [hfront, List.getLast?_concat]

theorem EndsComment.last_not_layout {body : List Char} (h : EndsComment body) :
    ∀ ch ∈ body.getLast?, isLayout ch = false := by
  intro ch hch
  obtain rfl := Option.some.inj (h.getLast?.symm.trans hch)
  decide

theorem InLine.left {line line' : List Char} (h : InLine (line ++ line')) : InLine line :=
  fun ch hch => h ch (List.mem_append_left _ hch)

/-- What comes at the end of a line also does so in front of a cut behind which the line ends. -/
theorem atLineEnd_cut (hx : AtLineEnd x) (h : AtLineEnd (w ++ v ++ r)) : AtLineEnd (w ++ x) := by
  cases w with
  | nil => exact hx
  | cons ch w => exact h

/-- Trivia stays trivia when layout at its end is cut off and a new line follows. -/
theorem Trivia.cut (h : Trivia (w ++ v) r) (hv : IsLayoutText v) (hx : AtLineEnd x) :
    Trivia w x := by
  generalize htext : w ++ v = text at h
  induction h generalizing w with
  | nil =>
    rw [(List.append_eq_nil_iff.1 htext).1]
    exact .nil
  | @layout ch text r hch _ ih =>
    cases w with
    | nil => exact .nil
    | cons d w =>
      obtain ⟨rfl, htail⟩ := List.cons.inj htext
      exact .layout hch (ih htail)
  | @line line text r hline hend _ ih =>
    obtain ⟨z, rfl, htail⟩ := layout_suffix (s := ['/', '/']) htext.symm hv
      (forall_mem_some_not_layout rfl)
    rw [List.cons_append, List.cons_append, List.nil_append]
    -- the cut is behind the comment or in it
    rcases List.append_eq_append_iff.1 htail with ⟨y, rfl, rfl⟩ | ⟨y, rfl, rfl⟩
    · exact .line hline (atLineEnd_cut hx hend) (ih rfl)
    · have hcomment := Trivia.line (w := []) hline.left hx .nil
      rwa [List.append_nil] at hcomment
  | @block body text r hbody _ ih =>
    obtain ⟨z, rfl, htail⟩ := layout_suffix (s := ['/', '*']) htext.symm hv
      (forall_mem_some_not_layout rfl)
    rw [List.cons_append, List.cons_append, List.nil_append]
    obtain ⟨y, rfl, rfl⟩ := layout_suffix htail hv hbody.last_not_layout
    exact .block hbody (ih rfl)

theorem InlineTrivia.cut (h : InlineTrivia (w ++ v) r) (hv : IsLayoutText v) (hx : AtLineEnd x) :
    InlineTrivia w x := by
  generalize htext : w ++ v = text at h
  induction h generalizing w with
  | nil =>
    rw [(List.append_eq_nil_iff.1 htext).1]
    exact .nil
  | @blank ch text r hch _ ih =>
    cases w with
    | nil => exact .nil
    | cons d w =>
      obtain ⟨rfl, htail⟩ := List.cons.inj htext
      exact .blank hch (ih htail)
  | @line line r hline hend =>
    obtain ⟨z, rfl, rfl⟩ := layout_suffix (s := ['/', '/']) htext.symm hv
      (forall_mem_some_not_layout rfl)
    exact .line hline.left hx
  | @block body text r hbody _ ih =>
    obtain ⟨z, rfl, htail⟩ := layout_suffix (s := ['/', '*']) htext.symm hv
      (forall_mem_some_not_layout rfl)
    rw [List.cons_append, List.cons_append, List.nil_append]
    obtain ⟨y, rfl, rfl⟩ := layout_suffix htail hv hbody.last_not_layout
    exact .block hbody (ih rfl)

theorem trim_append_layout (u : List Char) (hv : IsLayoutText v) : trim (u ++ v) = trim u := by
  have hspace : ∀ ch ∈ v, isSpace ch = true := fun ch hch => isSpace_of_isLayout (hv ch hch)
  have hback : ∀ y : List Char, dropWhileEnd isSpace (y ++ v) = dropWhileEnd isSpace y := by
    intro y
    rw [dropWhileEnd, dropWhileEnd, List.reverse_append, List.dropWhile_append_of_pos]
    exact fun ch hch => hspace ch (List.mem_reverse.1 hch)
  rw [trim, trim, List.dropWhile_append]
  split
  · rename_i hall
    rw [List.isEmpty_iff] at hall
    have hnone : v.dropWhile isSpace = [] := List.dropWhile_eq_nil_iff.2 hspace
    rw [hall, hnone]
  · exact hback _

/-! ## Expressions -/

variable {stops : List Char}

/-- A step that counts nothing and passes more than a character is a comment. -/
theorem Frame.move_comment {frame : Frame} {outer fs : List Frame} {c : Char} {p rest : List Char}
    (h : frame.move outer 0 c (p ++ rest) = .ok (.pass p.length fs false)) :
    p = [] ∨ c = '/' ∧ (∃ line, p = '/' :: line ∧ InLine line) ∨
      c = '/' ∧ ∃ body, p = '*' :: body ∧ EndsComment body := by
  generalize hcounts : false = counts at h
  generalize hextra : p.length = extra at h
  cases Frame.pass_of_move h with
  | code hcode =>
    cases hcode with
    | literal | bracket => simp at hcounts
    | plain => exact .inl (List.eq_nil_of_length_eq_zero hextra)
    | line hc hnext =>
      refine .inr (.inl ⟨hc, ?_⟩)
      obtain ⟨line, behind, hsplit, hlength, hline, -⟩ := exists_inLine (p ++ rest)
      obtain ⟨rfl, rfl⟩ := List.append_inj hsplit (hextra.trans hlength.symm)
      obtain ⟨tail, htail⟩ := List.head?_eq_some_iff.1 hnext
      cases p with
      | nil =>
        rw [List.nil_append] at htail
        simp [htail, lineLength, isLineEnd] at hextra
      | cons d line =>
        obtain ⟨rfl, -⟩ := List.cons.inj htail
        exact ⟨line, rfl, fun ch hch => hline ch (List.mem_cons_of_mem _ hch)⟩
    | block hc hnext hn =>
      refine .inr (.inr ⟨hc, ?_⟩)
      cases p with
      | nil => simp at hextra
      | cons d body =>
        obtain rfl := Option.some.inj hnext
        rw [List.length_cons, Nat.add_right_cancel_iff] at hextra
        obtain ⟨comment, behind, hsplit, hlength, hends⟩ := exists_endsComment hn
        obtain ⟨rfl, rfl⟩ := List.append_inj hsplit (hextra.trans hlength.symm)
        exact ⟨body, rfl, hends⟩
  | bracket | interpolation | literal => simp at hcounts

/-- What does not count is passed in code. -/
theorem Frame.admits_of_uncounted {frame : Frame} {outer fs : List Frame} {c : Char}
    {rest : List Char} {extra : Nat}
    (h : frame.move outer 0 c rest = .ok (.pass extra fs false)) : frame.Admits c := by
  cases frame with
  | expression stops =>
    intro hmem
    simp [Frame.move, hmem] at h
  | bracket close =>
    rintro rfl
    simp [Frame.move] at h
  | interpolation start =>
    rintro rfl
    simp [Frame.move] at h
  | literal l =>
    obtain ⟨-, hcounts⟩ := literalPass_of_literalMove h
    simp at hcounts

theorem lastCounted_eq_zero {n k₁ k₂ : Nat} (h : lastCounted n k₁ k₂ = 0) : k₁ = 0 ∧ k₂ = 0 := by
  unfold lastCounted at h
  split at h <;> omega

/-- What is passed and does not count is still passed when layout at its end is cut off and a new
line follows. -/
theorem Passes.cut_uncounted {fs fs' : List Frame} (h : Passes fs (w ++ v) 0 fs' r)
    (hv : IsLayoutText v) (hr : Quiet (v ++ r)) (hx : AtLineEnd x) : Passes fs w 0 fs x := by
  generalize htext : w ++ v = text at h
  generalize hzero : 0 = k at h
  induction h generalizing w with
  | nil =>
    rw [(List.append_eq_nil_iff.1 htext).1]
    exact .nil
  | @step frame outer fs fs' c p text r k counts hmove hrest ih =>
    obtain ⟨hcounts, rfl⟩ := lastCounted_eq_zero hzero.symm
    obtain rfl : counts = false := by simpa using hcounts
    obtain rfl := Frame.move_uncounted hmove
    cases w with
    | nil => exact .nil
    | cons d w =>
      obtain ⟨rfl, htail⟩ := List.cons.inj htext
      have hcut : (∃ y, w = p ++ y ∧ text = y ++ v) ∨
          ∃ y, y ≠ [] ∧ p = w ++ y ∧ IsLayoutText y := by
        rcases List.append_eq_append_iff.1 htail with ⟨y, rfl, rfl⟩ | ⟨y, rfl, rfl⟩
        · by_cases hy : y = []
          · exact .inl ⟨[], by simp [hy], by simp [hy]⟩
          · exact .inr ⟨y, hy, rfl, fun ch hch => hv ch (List.mem_append_left _ hch)⟩
        · exact .inl ⟨y, rfl, rfl⟩
      rcases hcut with ⟨y, rfl, rfl⟩ | ⟨y, hne, rfl, hy⟩
      · -- the cut lies behind the step
        rw [List.append_assoc, ← List.append_assoc] at hmove
        have hmove' := Frame.move_seam hmove (by rw [List.length_append]; omega)
          (.inr ⟨hr, hx.softHead.firm⟩) (.inr (.inr fun _ => hx))
        rw [List.append_assoc] at hmove'
        exact Passes.step hmove' (ih hr rfl rfl)
      · -- the cut lies in the step, which is a line comment then
        rcases Frame.move_comment hmove with hnil | ⟨rfl, line, hline, hinline⟩ |
          ⟨rfl, body, hbody, hends⟩
        · exact absurd (List.append_eq_nil_iff.1 hnil).2 hne
        · obtain ⟨z, rfl, rfl⟩ := layout_suffix (s := ['/']) hline.symm hy
            (forall_mem_some_not_layout rfl)
          exact passes_line (Frame.admits_of_uncounted hmove) hinline.left hx outer
        · have hlast : ∀ ch ∈ ('*' :: body).getLast?, isLayout ch = false := by
            rw [List.getLast?_cons, hends.getLast?]
            exact forall_mem_some_not_layout rfl
          obtain ⟨z, -, hnil⟩ := layout_suffix (y := []) ((List.append_nil _).trans hbody.symm) hy
            hlast
          exact absurd (List.append_eq_nil_iff.1 hnil.symm).2 hne

/-- An expression is passed up to a cut in layout at its end, and what counts lies in front of
it. -/
theorem passesExpression_cut {k : Nat} (h : PassesExpression stops (w ++ v) k r)
    (hv : IsLayoutText v) (hr : Quiet (v ++ r)) (hx : AtLineEnd x) :
    PassesExpression stops w k x ∧ (w ++ v).take k = w.take k := by
  have hfront := Passes.cut h
  have hlength : ((w ++ v).take k).length = k := by
    rw [List.length_take, Nat.min_eq_left h.counted_le]
  have hlast := (Passes.truncate (s := []) hfront).last_counted closes_expression rfl hlength.symm
  have hsplit := List.take_append_drop k (w ++ v)
  -- what counts last is no white space, so it lies in front of the cut
  obtain ⟨z, hw, hz⟩ := layout_suffix hsplit hv fun ch hch => by
    cases hlay : isLayout ch with
    | false => rfl
    | true => simpa [isSpace_of_isLayout hlay] using hlast ch hch
  rw [hz] at hsplit hfront
  generalize (w ++ v).take k = counted at *
  subst hw hlength
  rw [List.append_assoc] at h
  obtain ⟨k₂, hk, hbehind⟩ := Passes.behind hfront h
  obtain rfl : k₂ = 0 := by
    unfold lastCounted at hk
    split at hk <;> omega
  rw [List.append_assoc] at hfront
  have hfront' := Passes.seam hfront (.inr ⟨hr, hx.softHead.firm⟩) (.inr (.inl rfl))
  have hboth := hfront'.append (hbehind.cut_uncounted hv hr hx)
  rw [lastCounted_zero] at hboth
  exact ⟨hboth, by rw [List.take_left]⟩

/-- A scanned expression is scanned up to a cut in layout at its end. -/
theorem scanExpression_cut {text : String} {c c' : Cursor}
    (h : scanExpression stops c = .ok (text, c')) (hrest : c.rest = w ++ (v ++ c'.rest))
    (hv : IsLayoutText v) (hr : Quiet (v ++ c'.rest)) (hx : AtLineEnd x)
    (hstops : ∀ ch, isLineEnd ch = true → ch ∈ stops) (p : Nat) :
    scanExpression stops ⟨p, w ++ x⟩ = .ok (text, ⟨p + w.length, x⟩) := by
  obtain ⟨u, k, hmoves, hpasses, -, rfl⟩ := scanExpression_spec h
  obtain rfl : u = w ++ v := by
    refine List.append_cancel_right (hmoves.1.symm.trans ?_)
    rw [hrest, List.append_assoc]
  obtain ⟨hcut, htake⟩ := passesExpression_cut hpasses hv hr hx
  have hends : EndsExpression stops x := fun ch hch => by simp [hstops ch (hx ch hch)]
  rw [scanExpression_text hcut hends, htake]

theorem AtLineEnd.next?_ne (hx : AtLineEnd x) {ch : Char} (hch : isLineEnd ch = false) (p : Nat) :
    (⟨p, x⟩ : Cursor).next? ≠ some ch := by
  intro h
  simp [hx ch h] at hch

/-! ## Case declarations

What is read ends at `c'`, and the layout `v` in front of `c'` is cut off. -/

section

variable {c c' c₁ c₂ c₃ d : Cursor} {name : String} (hv : IsLayoutText v)
  (hr : SoftHead (v ++ c'.rest)) (hx : AtLineEnd x)

include hv in
/-- Behind something that is no layout the cut is still to come. -/
theorem known_behind {s : List Char} (hk : (seaming 0 hr hx).Known c) (hmoves : c.Moves s d)
    (hreaches : d.Reaches c') (hs : ∀ ch ∈ s.getLast?, isLayout ch = false) :
    (seaming 0 hr hx).Known d := by
  obtain ⟨u, hu⟩ := hk
  obtain ⟨y, hy, -⟩ := hreaches
  have hsplit : s ++ y = u ++ v := by
    refine (List.append_left_inj c'.rest).1 ?_
    rw [List.append_assoc, ← hy, ← hmoves.1, hu, List.append_assoc]
  obtain ⟨z, -, rfl⟩ := layout_suffix hsplit hv hs
  exact ⟨z, by rw [hy, List.append_assoc]⟩

include hv in
theorem known_advance_of_solid {ch : Char} (hk : (seaming 0 hr hx).Known c) (hto : c.Reaches d)
    (hnext : d.next? = some ch) (hch : isLayout ch = false) (hreaches : (d.advance 1).Reaches c') :
    (seaming 0 hr hx).Known (d.advance 1) := by
  obtain ⟨w, hmoves⟩ := hto
  obtain ⟨rest, hrest⟩ := List.head?_eq_some_iff.1 hnext
  refine known_behind hv hr hx hk (hmoves.trans (.cons hrest (.refl _))) hreaches ?_
  simpa [List.getLast?_append] using hch

include hv in
theorem skipInlineTrivia_cut (hk : (seaming 0 hr hx).Known c) (h : skipInlineTrivia c = .ok c') :
    ∃ p, skipInlineTrivia ((seaming 0 hr hx).carry c) = .ok ⟨p, x⟩ := by
  obtain ⟨w, hmoves, hw, -⟩ := skipInlineTrivia_spec h
  obtain ⟨u, hu⟩ := hk
  obtain rfl : w = u ++ v := by
    refine List.append_cancel_right (hmoves.1.symm.trans ?_)
    rw [hu, List.append_assoc]
  have hcarry : (seaming 0 hr hx).carry c = ⟨c.pos, u ++ x⟩ := seamed_rest hu
  rw [hcarry]
  exact ⟨_, skipInlineTrivia_text (hw.cut hv hx) hx.inlineSolid _⟩

include hv in
/-- The name of a case element with its associated values, up to the cut. -/
theorem skipAssociatedValues_cut (hk : (seaming 0 hr hx).Known c)
    (hinline : skipInlineTrivia c = .ok c₂) (hvalues : skipAssociatedValues c₂ = .ok c') :
    ∃ d p, skipInlineTrivia ((seaming 0 hr hx).carry c) = .ok d ∧
      skipAssociatedValues d = .ok ⟨p, x⟩ := by
  unfold skipAssociatedValues at hvalues
  split at hvalues
  · rename_i hopen
    split at hvalues
    · simp at hvalues
    · rename_i g hgroup
      obtain ⟨w, n, hmoves, -⟩ := skipGroup_spec hopen hgroup
      obtain ⟨t, hto⟩ := reaches_skipInlineTrivia hinline
      have hkg := known_behind hv hr hx hk (hto.trans hmoves) (reaches_skipInlineTrivia hvalues)
        (by simp [List.getLast?_append, List.getLast?_cons, isLayout, isBlank, isLineEnd])
      have hk₂ := Carrier.known_of_reaches _ hkg hmoves.reaches
      obtain ⟨p, hp⟩ := skipInlineTrivia_cut hv hr hx hkg hvalues
      refine ⟨_, p, Carrier.inlineTrivia hinline hk₂, ?_⟩
      rw [skipAssociatedValues, if_pos ((Carrier.next?_iff hk₂ (by decide)).2 hopen),
        Carrier.group hopen hgroup hkg]
      exact hp
  · obtain rfl := Except.ok.inj hvalues
    obtain ⟨p, hp⟩ := skipInlineTrivia_cut hv hr hx hk hinline
    exact ⟨_, p, hp, by rw [skipAssociatedValues, if_neg (hx.next?_ne (by decide) p)]⟩

include hv in
/-- A raw value up to the cut. -/
theorem readRawValue_cut {text : String} (hk : (seaming 0 hr hx).Known c)
    (h : readRawValue c = .ok (some text, c')) :
    ∃ p, readRawValue ((seaming 0 hr hx).carry c) = .ok (some text, ⟨p, x⟩) := by
  rcases readRawValue_spec h with ⟨-, hnone, -⟩ |
    ⟨_, c₁, c₂, hsign, hbefore, hscan, htext, hafter, hsome⟩
  · simp at hnone
  obtain rfl := Option.some.inj hsome
  obtain ⟨w, n, hmoves, hpasses, hends, htrim⟩ := scanExpression_spec hscan
  -- no trivia is left behind the expression
  obtain rfl := Except.ok.inj ((skipInlineTrivia_solid hends.inlineSolid c₂.pos).symm.trans hafter)
  obtain ⟨-, -, -, hsolid⟩ := skipInlineTrivia_spec hbefore
  have hkSign := known_advance_of_solid hv hr hx hk (.refl c) hsign (by decide)
    ((reaches_skipInlineTrivia hbefore).trans hmoves.reaches)
  have hk₁ : (seaming 0 hr hx).Known c₁ := by
    cases w with
    | nil =>
      -- there would be no text
      rw [htrim] at htext
      simp [trim, dropWhileEnd] at htext
    | cons ch w =>
      have hrest : c₁.rest = ch :: (w ++ c₂.rest) := hmoves.1
      have hnext : c₁.next? = some ch := by rw [Cursor.next?, hrest, List.head?_cons]
      have hadmits : ch ∉ [',', ';', '\n', '\r'] := hpasses.admits
      have hlayout : isLayout ch = false := by
        have hlineEnd : isLineEnd ch = false := by
          cases hch : isLineEnd ch with
          | false => rfl
          | true => exact absurd (lineEnd_mem (by decide) ch hch) hadmits
        rw [hrest] at hsolid
        exact hsolid.not_layout hlineEnd
      exact Carrier.known_next (known_advance_of_solid hv hr hx hkSign
        (reaches_skipInlineTrivia hbefore) hnext hlayout hmoves.tail.reaches)
  obtain ⟨u, hu⟩ := hk₁
  have hcarry : (seaming 0 hr hx).carry c₁ = ⟨c₁.pos, u ++ x⟩ := seamed_rest hu
  have hscan' := scanExpression_cut hscan hu hv hr.firm.quiet hx (lineEnd_mem (by decide)) c₁.pos
  rw [← hcarry] at hscan'
  refine ⟨_, readRawValue_some ((Carrier.next?_iff hk (by decide)).2 hsign) ?_ hscan' htext
    (skipInlineTrivia_solid hx.inlineSolid _)⟩
  rw [Carrier.advance_one hsign hkSign]
  exact Carrier.inlineTrivia hbefore ⟨u, hu⟩

include hv in
/-- The last of the case elements up to the cut. -/
theorem readCaseElement_cut {e : CaseElement} (hk : (seaming 0 hr hx).Known c)
    (h : readCaseElement c = .ok (e, c')) :
    ∃ e' p, readCaseElement ((seaming 0 hr hx).carry c) = .ok (e', ⟨p, x⟩) ∧
      e'.outline = e.outline := by
  obtain ⟨start, name, c₁, c₂, c₃, rawValue, htrivia, hname, hinline, hvalues, hraw, rfl⟩ :=
    readCaseElement_spec h
  have hafter := (reaches_skipInlineTrivia hinline).trans
    ((reaches_skipAssociatedValues hvalues).trans (reaches_readRawValue hraw))
  have hk₁ : (seaming 0 hr hx).Known c₁ := by
    obtain ⟨w, hto⟩ := reaches_skipTrivia htrivia
    obtain ⟨n, hmoves, hn, -⟩ := readName?_spec hname
    refine known_behind hv hr hx hk (hto.trans hmoves) hafter fun ch hch => ?_
    rw [List.getLast?_append_of_ne_nil _ hn.ne_nil] at hch
    exact not_layout_of_isNameChar (hn.all ch (List.mem_of_getLast? hch))
  have hin : (seaming 0 hr hx).Inside start :=
    .of_shorter hk₁ (reaches_readName? hname) (readName?_shorter hname)
  have hfront := Carrier.trivia htrivia hin
  have hname' := Carrier.name hname hk₁
  cases rawValue with
  | none =>
    rcases readRawValue_spec hraw with ⟨-, -, rfl⟩ | ⟨_, _, _, -, -, -, -, -, hsome⟩
    · obtain ⟨d, p, hinline', hvalues'⟩ := skipAssociatedValues_cut hv hr hx hk₁ hinline hvalues
      exact ⟨_, p, readCaseElement_run hfront hname' hinline' hvalues'
        (readRawValue_none (hx.next?_ne (by decide) p)), rfl⟩
    · simp at hsome
  | some text =>
    have hk₃ : (seaming 0 hr hx).Known c₃ := by
      rcases readRawValue_spec hraw with ⟨-, hnone, -⟩ |
        ⟨_, d₁, d₂, hsign, hbefore, hscan, -, hbehind, -⟩
      · simp at hnone
      · exact Carrier.known_next (known_advance_of_solid hv hr hx hk₁
          ((reaches_skipInlineTrivia hinline).trans (reaches_skipAssociatedValues hvalues)) hsign
          (by decide) ((reaches_skipInlineTrivia hbefore).trans
            ((reaches_scanExpression hscan).trans (reaches_skipInlineTrivia hbehind))))
    have hk₂ := Carrier.known_of_reaches _ hk₃ (reaches_skipAssociatedValues hvalues)
    obtain ⟨p, hraw'⟩ := readRawValue_cut hv hr hx hk₃ hraw
    exact ⟨_, p, readCaseElement_run hfront hname' (Carrier.inlineTrivia hinline hk₂)
      (Carrier.associatedValues hvalues hk₃) hraw', rfl⟩

include hv in
theorem readCaseElements_cut {es : List CaseElement} (hk : (seaming 0 hr hx).Known c)
    (h : readCaseElements c = .ok (es, c')) :
    ∃ es' p, readCaseElements ((seaming 0 hr hx).carry c) = .ok (es', ⟨p, x⟩) ∧
      es'.map CaseElement.outline = es.map CaseElement.outline := by
  fun_induction readCaseElements c generalizing es with
  | case3 c e c₁ he hcomma others c₂ hrest ih =>
    obtain ⟨rfl, rfl⟩ := Prod.mk.inj (Except.ok.inj h)
    have hkComma := known_advance_of_solid hv hr hx hk (reaches_readCaseElement he) hcomma
      (by decide) (reaches_readCaseElements hrest)
    have hk₁ := Carrier.known_next hkComma
    obtain ⟨others', p, hothers, houtlines⟩ := ih hkComma hrest
    rw [← Carrier.advance_one hcomma hkComma] at hothers
    refine ⟨_ :: others', p, readCaseElements_more (Carrier.caseElement he hk₁)
      ((Carrier.next?_iff hk₁ (by decide)).2 hcomma) hothers, ?_⟩
    rw [List.map_cons, List.map_cons, houtlines, CaseElement.outline_moved]
  | case4 c e c₁ he hcomma =>
    obtain ⟨rfl, rfl⟩ := Prod.mk.inj (Except.ok.inj h)
    obtain ⟨e', p, he', houtline⟩ := readCaseElement_cut hv hr hx hk he
    refine ⟨[e'], p, readCaseElements_last he' (hx.next?_ne (by decide) p), ?_⟩
    rw [List.map_singleton, List.map_singleton, houtline]
  | case1 | case2 => simp at h

end

/-! ## Declarations that hold no others -/

theorem solid_readAttributes {c c' : Cursor} {as : List Attribute}
    (h : readAttributes c = .ok (as, c')) (hc : Solid c.rest) : Solid c'.rest := by
  fun_induction readAttributes c generalizing as c' with
  | case4 c hat a c₁ ha c₂ htrivia others c₃ hrest ih =>
    obtain ⟨-, rfl⟩ := Prod.mk.inj (Except.ok.inj h)
    obtain ⟨-, -, -, hsolid⟩ := skipTrivia_spec htrivia
    exact ih hrest hsolid
  | case5 =>
    obtain ⟨-, rfl⟩ := Prod.mk.inj (Except.ok.inj h)
    exact hc
  | case1 | case2 | case3 => simp at h

theorem solid_skipModifierArgument {c c' : Cursor} (h : skipModifierArgument c = .ok c') :
    Solid c'.rest := by
  unfold skipModifierArgument at h
  split at h
  · split at h
    · simp at h
    · obtain ⟨-, -, -, hsolid⟩ := skipTrivia_spec h
      exact hsolid
  · obtain ⟨-, -, -, hsolid⟩ := skipTrivia_spec h
    exact hsolid

theorem solid_readModifiers {c c' : Cursor} {ms : List String}
    (h : readModifiers c = .ok (ms, c')) (hc : Solid c.rest) : Solid c'.rest := by
  fun_induction readModifiers c generalizing ms c' with
  | case1 | case3 =>
    obtain ⟨-, rfl⟩ := Prod.mk.inj (Except.ok.inj h)
    exact hc
  | case6 c word c₁ hname hword c₂ hargument others c₃ hrest ih =>
    obtain ⟨-, rfl⟩ := Prod.mk.inj (Except.ok.inj h)
    exact ih hrest (solid_skipModifierArgument hargument)
  | case2 | case4 | case5 => simp at h

theorem LeadsTo.solid {c c' : Cursor} (h : LeadsTo c c') (hc : Solid c.rest) : Solid c'.rest := by
  obtain ⟨_, _, _, hattributes, hmodifiers⟩ := h
  exact solid_readModifiers hmodifiers (solid_readAttributes hattributes hc)

theorem LeadsTo.reaches {c c' : Cursor} (h : LeadsTo c c') : c.Reaches c' := by
  obtain ⟨_, _, _, hattributes, hmodifiers⟩ := h
  exact (reaches_readAttributes hattributes).1.trans (reaches_readModifiers hmodifiers)

theorem moves_lead_cases {c after : Cursor} (h : lead c = .cases after) :
    c.Moves "case".toList after := by
  unfold lead at h
  split at h
  · simp at h
  · rename_i hname
    split at h
    · simp at h
    · split at h
      · rename_i hword
        obtain rfl := Lead.cases.inj h
        rw [← hword]
        exact moves_readName? hname
      · simp at h

/-- Attributes and modifiers end in front of a cut behind something else. -/
theorem LeadsTo.inside_cut {c c' d : Cursor} (hv : IsLayoutText v) (hr : SoftHead (v ++ c'.rest))
    (hx : AtLineEnd x) (h : LeadsTo c d) (hk : (seaming 0 hr hx).Known c) (hc : Solid c.rest)
    (hreaches : d.Reaches c') (hbare : ¬LeadsTo c c') : (seaming 0 hr hx).Inside d := by
  obtain ⟨w, hmoves⟩ := hreaches
  cases w with
  | nil => exact absurd ((Moves.refl d).unique hmoves ▸ h) hbare
  | cons ch w =>
    have hnext : d.next? = some ch := by rw [Cursor.next?, hmoves.1]; rfl
    have hsolid := h.solid hc
    rw [hmoves.1] at hsolid
    exact .of_advance (known_advance_of_solid hv hr hx hk h.reaches hnext hsolid.not_layout
      hmoves.tail.reaches) hnext

/-- A declaration that holds no others is spelled up to a cut in layout at its end. It must be more
than attributes and modifiers. -/
theorem ReadsLeaf.spells_cut {c c' : Cursor} {o : Declaration} {u : List Char}
    (h : ReadsLeaf c o c') (hrest : c.rest = u ++ (v ++ c'.rest)) (hc : Solid c.rest)
    (hv : IsLayoutText v) (hr : SoftHead (v ++ c'.rest)) (hx : AtLineEnd x)
    (hbare : ¬LeadsTo c c') : SpellsLeaf (u ++ x) o.outline x := by
  have hk : (seaming 0 hr hx).Known c := ⟨u, hrest⟩
  have hcarry : (seaming 0 hr hx).carry c = ⟨c.pos, u ++ x⟩ := seamed_rest hrest
  cases h with
  | @other _ c₂ _ attributes modifiers _ hattributes hmodifiers hlead hother =>
    have hleads : LeadsTo c c₂ := ⟨_, _, _, hattributes, hmodifiers⟩
    have hin₂ := hleads.inside_cut hv hr hx hk hc (reaches_readOther hother) hbare
    obtain ⟨text, hscan, hpos, rfl⟩ := readOther_spec hother
    obtain ⟨m, hto⟩ := hleads.reaches
    obtain ⟨u₂, hu₂⟩ := hin₂.1
    obtain rfl : m ++ u₂ = u := by
      refine (List.append_left_inj (v ++ c'.rest)).1 ?_
      rw [← hrest, hto.1, hu₂, List.append_assoc]
    have hscan' := scanExpression_cut hscan hu₂ hv hr.firm.quiet hx (lineEnd_mem (by decide)) c₂.pos
    have hcarry₂ : (seaming 0 hr hx).carry c₂ = ⟨c₂.pos, u₂ ++ x⟩ := seamed_rest hu₂
    rw [← hcarry₂] at hscan'
    obtain ⟨all, hall⟩ := hto.reaches.trans (reaches_scanExpression hscan)
    obtain rfl : all = m ++ u₂ ++ v := by
      refine List.append_cancel_right (hall.1.symm.trans ?_)
      rw [hrest, List.append_assoc (m ++ u₂)]
    have hcut : ((seaming 0 hr hx).carry c).Moves (m ++ u₂) ⟨c₂.pos + u₂.length, x⟩ := by
      rw [hcarry]
      exact ⟨rfl, by rw [hto.2, List.length_append, Nat.add_assoc]⟩
    have hne : c₂.pos + u₂.length ≠ ((seaming 0 hr hx).carry c).pos := by
      intro heq
      have hlength := hcut.2
      dsimp only at hlength
      have hnil : m ++ u₂ = [] := List.eq_nil_of_length_eq_zero (by omega)
      rw [hnil, List.nil_append] at hall hrest
      -- it would consist of layout
      cases v with
      | nil => exact hpos hall.2
      | cons ch v =>
        rw [hrest] at hc
        have := hc.not_layout
        simp [hv ch List.mem_cons_self] at this
    have hleaf := ReadsLeaf.other
      (Carrier.attributes hattributes (hin₂.of_reaches (reaches_readModifiers hmodifiers)))
      (Carrier.modifiers hmodifiers hin₂ fun after hclass => by simp [lead_class hclass] at hlead)
      (Carrier.lead_other hlead hin₂.1) (readOther_run hscan' hne)
    have hspells := hleaf.spells
    rw [hcut.slice, hcarry] at hspells
    simpa only [Declaration.outline, hall.slice, trim_append_layout _ hv, List.map_map,
      Function.comp_def, Attribute.outline_moved] using hspells
  | @cases _ c₂ after _ attributes modifiers _ hattributes hmodifiers hlead hcases =>
    have hleads : LeadsTo c c₂ := ⟨_, _, _, hattributes, hmodifiers⟩
    have hin₂ := hleads.inside_cut hv hr hx hk hc
      ((reaches_lead_cases hlead).trans (reaches_readCases hcases)) hbare
    obtain ⟨elements, helements, rfl⟩ := readCases_spec hcases
    have hkAfter : (seaming 0 hr hx).Known after := by
      obtain ⟨m, hto⟩ := hleads.reaches
      refine known_behind hv hr hx hk (hto.trans (moves_lead_cases hlead))
        (reaches_readCaseElements helements) ?_
      simp [List.getLast?_append, isLayout, isBlank, isLineEnd]
    obtain ⟨es, p, helements', houtlines⟩ := readCaseElements_cut hv hr hx hkAfter helements
    have hleaf := ReadsLeaf.cases
      (Carrier.attributes hattributes (hin₂.of_reaches (reaches_readModifiers hmodifiers)))
      (Carrier.modifiers hmodifiers hin₂ fun after hclass => by simp [lead_class hclass] at hlead)
      (Carrier.lead_cases hlead hkAfter) (by rw [readCases, helements'])
    have hspells := hleaf.spells
    rw [hcarry] at hspells
    simpa only [Declaration.outline, houtlines] using hspells

end LocalizedKeys.Swift
