import LocalizedKeys.Swift.Expression
import LocalizedKeys.Proofs.Trivia

/-!
# What the pass over expressions goes through

`Passes fs w k fs' r` says that the pass, with `fs` open, goes through `w` in front of `r` and
has `fs'` open afterwards, and that `k` characters of `w` have gone by when the last one that
counts has. It is the trace of `scan`, with one constructor for a step, and it forgets places:
where a literal was opened plays a part in error messages only, so frames are compared with that
place taken off (`Frame.unplaced`).

`scan_passes` runs the pass along a trace, and `scan_spec` finds the trace of a run that ended
well. What a text does to the pass is thereby said once, for all places where it may stand.
-/

namespace LocalizedKeys.Swift

open Text

/-! ## Forgetting places -/

/-- The frame as if it had been opened at the start of the text. -/
def Frame.unplaced : Frame → Frame
  | .expression stops => .expression stops
  | .bracket close => .bracket close
  | .literal l => .literal { l with start := 0 }
  | .interpolation _ => .interpolation 0

/-- The move with the frames that are open afterwards as if opened at the start of the text. -/
def Move.unplaced : Move → Move
  | .stop => .stop
  | .pass extra frames counts => .pass extra (frames.map Frame.unplaced) counts

/-- The result if there is one. -/
def succeeded? {ε α : Type} : Except ε α → Option α
  | .ok a => some a
  | .error _ => none

@[simp] theorem succeeded?_ok {ε α : Type} (a : α) :
    succeeded? (.ok a : Except ε α) = some a := rfl

@[simp] theorem succeeded?_error {ε α : Type} (e : ε) :
    succeeded? (.error e : Except ε α) = none := rfl

theorem succeeded?_eq_some {ε α : Type} {x : Except ε α} {a : α} :
    succeeded? x = some a ↔ x = .ok a := by
  cases x <;> simp

theorem openLiteral?_unplaced (pos : Nat) (cs : List Char) :
    (openLiteral? pos cs).map (fun x => ({ x.1 with start := 0 }, x.2)) = openLiteral? 0 cs := by
  unfold openLiteral?
  dsimp only
  split <;> simp

theorem codeMove_unplaced (frames : List Frame) (pos : Nat) (c : Char) (rest : List Char) :
    (succeeded? (codeMove frames pos c rest)).map Move.unplaced
      = succeeded? (codeMove (frames.map Frame.unplaced) 0 c rest) := by
  unfold codeMove
  by_cases hopens : opensLiteral c rest
  · rw [if_pos hopens, if_pos hopens, ← openLiteral?_unplaced pos]
    cases openLiteral? pos (c :: rest) with
    | none => rfl
    | some x => rfl
  · rw [if_neg hopens, if_neg hopens]
    by_cases hline : c = '/' ∧ rest.head? = some '/'
    · rw [if_pos hline, if_pos hline]
      rfl
    · rw [if_neg hline, if_neg hline]
      by_cases hblock : c = '/' ∧ rest.head? = some '*'
      · rw [if_pos hblock, if_pos hblock]
        cases commentLength? 1 0 rest.tail <;> rfl
      · rw [if_neg hblock, if_neg hblock]
        cases closingBracket? c <;> rfl

theorem literalMove_unplaced (l : OpenLiteral) (outer : List Frame) (c : Char)
    (rest : List Char) :
    (succeeded? (literalMove l outer c rest)).map Move.unplaced
      = succeeded? (literalMove { l with start := 0 } (outer.map Frame.unplaced) c rest) := by
  have hclosing : ({ l with start := 0 } : OpenLiteral).closing = l.closing := rfl
  have hescaping : ({ l with start := 0 } : OpenLiteral).escape = l.escape := rfl
  unfold literalMove
  rw [hclosing, hescaping]
  by_cases hclose : l.closing.isPrefixOf (c :: rest)
  · rw [if_pos hclose, if_pos hclose]
    rfl
  · rw [if_neg hclose, if_neg hclose]
    by_cases hescape : l.escape.isPrefixOf (c :: rest)
    · rw [if_pos hescape, if_pos hescape]
      dsimp only
      by_cases hopen : (rest.drop l.hashes).head? = some '('
      · rw [if_pos hopen, if_pos hopen]
        rfl
      · rw [if_neg hopen, if_neg hopen]
        rfl
    · rw [if_neg hescape, if_neg hescape]
      by_cases hend : (!l.multiline && isLineEnd c) = true
      · rw [if_pos hend, if_pos hend]
        rfl
      · rw [if_neg hend, if_neg hend]
        rfl

/-- Places have no part in a move that succeeds. -/
theorem Frame.move_unplaced (frame : Frame) (outer : List Frame) (pos : Nat) (c : Char)
    (rest : List Char) :
    (succeeded? (frame.move outer pos c rest)).map Move.unplaced
      = succeeded? (frame.unplaced.move (outer.map Frame.unplaced) 0 c rest) := by
  cases frame with
  | expression stops =>
    simp only [Frame.unplaced, Frame.move]
    split
    · rfl
    · exact codeMove_unplaced _ pos c rest
  | bracket close =>
    simp only [Frame.unplaced, Frame.move]
    split
    · rfl
    · split
      · rfl
      · exact codeMove_unplaced _ pos c rest
  | literal l => exact literalMove_unplaced l outer c rest
  | interpolation start =>
    simp only [Frame.unplaced, Frame.move]
    split
    · rfl
    · split
      · rfl
      · exact codeMove_unplaced _ pos c rest

/-! ## Traces -/

/-- How many characters of two texts have gone by when the last one that counts has, the first
of which has `n` characters. -/
def lastCounted (n k₁ k₂ : Nat) : Nat := if k₂ = 0 then k₁ else n + k₂

theorem lastCounted_zero (n k : Nat) : lastCounted n k 0 = k := rfl

theorem lastCounted_assoc (n₁ n₂ k₁ k₂ k₃ : Nat) :
    lastCounted (n₁ + n₂) (lastCounted n₁ k₁ k₂) k₃
      = lastCounted n₁ k₁ (lastCounted n₂ k₂ k₃) := by
  unfold lastCounted
  by_cases h₃ : k₃ = 0
  · simp [h₃]
  · have : n₂ + k₃ ≠ 0 := by omega
    simp only [h₃, if_false, this]
    omega

/-- Everything counts to the end if what comes last does, and if that is nothing, what stands
before it does. -/
theorem lastCounted_eq_add_iff {n m k₁ k₂ : Nat} (h : k₁ ≤ n) :
    lastCounted n k₁ k₂ = n + m ↔ k₂ = m ∧ (m = 0 → k₁ = n) := by
  unfold lastCounted
  split <;> omega

/-- The trace of the pass. -/
inductive Passes : List Frame → List Char → Nat → List Frame → List Char → Prop
  | nil {fs : List Frame} {r : List Char} : Passes fs [] 0 fs r
  | step {frame : Frame} {outer fs fs' : List Frame} {c : Char} {v w r : List Char} {k : Nat}
      {counts : Bool} :
      frame.move outer 0 c (v ++ (w ++ r)) = .ok (.pass v.length fs counts) →
      Passes fs w k fs' r →
      Passes (frame :: outer) (c :: (v ++ w))
        (lastCounted (v.length + 1) (if counts then v.length + 1 else 0) k) fs' r

theorem Passes.append {fs fs₁ fs₂ : List Frame} {w₁ w₂ r : List Char} {k₁ k₂ : Nat}
    (h₁ : Passes fs w₁ k₁ fs₁ (w₂ ++ r)) (h₂ : Passes fs₁ w₂ k₂ fs₂ r) :
    Passes fs (w₁ ++ w₂) (lastCounted w₁.length k₁ k₂) fs₂ r := by
  generalize htail : w₂ ++ r = tail at h₁
  induction h₁ with
  | nil =>
    have : lastCounted 0 0 k₂ = k₂ := by
      unfold lastCounted
      split <;> omega
    rw [List.nil_append, List.length_nil, this]
    exact h₂
  | @step frame outer fs fs' c v w r' k counts hmove _ ih =>
    subst htail
    rw [← List.append_assoc] at hmove
    have := Passes.step (by simpa using hmove) (ih h₂ rfl)
    simp only [List.cons_append, List.append_assoc, List.length_cons, List.length_append]
    rw [show v.length + w.length + 1 = v.length + 1 + w.length by omega, lastCounted_assoc]
    exact this

/-- A text that is followed by one that counts to its end does so, too. -/
theorem Passes.append_counted {fs fs₁ fs₂ : List Frame} {w₁ w₂ r : List Char} {k : Nat}
    (h₁ : Passes fs w₁ k fs₁ (w₂ ++ r)) (h₂ : Passes fs₁ w₂ w₂.length fs₂ r) (hne : w₂ ≠ []) :
    Passes fs (w₁ ++ w₂) (w₁ ++ w₂).length fs₂ r := by
  have hpos : w₂.length ≠ 0 := fun h => hne (List.length_eq_zero_iff.1 h)
  have := h₁.append h₂
  rwa [lastCounted, if_neg hpos, ← List.length_append] at this

theorem Passes.one {frame : Frame} {outer fs : List Frame} {c : Char} {v r : List Char}
    {counts : Bool} (h : frame.move outer 0 c (v ++ r) = .ok (.pass v.length fs counts)) :
    Passes (frame :: outer) (c :: v) (if counts then v.length + 1 else 0) fs r := by
  have := Passes.step (w := []) (k := 0) (by simpa using h) (.nil (r := r))
  rwa [List.append_nil, lastCounted_zero] at this

theorem Passes.counted_le {fs fs' : List Frame} {w r : List Char} {k : Nat}
    (h : Passes fs w k fs' r) : k ≤ w.length := by
  induction h with
  | nil => exact Nat.le_refl _
  | step _ _ ih =>
    simp only [List.length_cons, List.length_append]
    unfold lastCounted
    split
    · split <;> omega
    · omega

/-! ## Running along a trace -/

theorem scan_nil (mark : Nat) (c : Cursor) : scan [] mark c = .ok (mark, c) := by
  rw [scan]

theorem scan_pass {frame : Frame} {outer fs : List Frame} {mark p : Nat} {c : Char}
    {v r : List Char} {counts : Bool}
    (h : frame.move outer p c (v ++ r) = .ok (.pass v.length fs counts)) :
    scan (frame :: outer) mark ⟨p, c :: (v ++ r)⟩
      = scan fs (if counts then p + (v.length + 1) else mark) ⟨p + (v.length + 1), r⟩ := by
  have hadvance := Cursor.advance_append p (c :: v) r
  simp only [List.length_cons, List.cons_append] at hadvance
  rw [scan]
  split
  · rename_i heq
    simp at heq
  · rename_i ch rest heq
    obtain ⟨rfl, rfl⟩ := List.cons.inj heq
    simp only [h, hadvance]

/-- The pass goes through a text as its trace says. -/
theorem scan_passes {fs₀ fs₀' : List Frame} {w r : List Char} {k : Nat}
    (h : Passes fs₀ w k fs₀' r) {fs : List Frame} (hfs : fs.map Frame.unplaced = fs₀)
    (mark p : Nat) :
    ∃ fs', fs'.map Frame.unplaced = fs₀' ∧
      scan fs mark ⟨p, w ++ r⟩
        = scan fs' (if k = 0 then mark else p + k) ⟨p + w.length, r⟩ := by
  induction h generalizing fs mark p with
  | nil => exact ⟨fs, hfs, rfl⟩
  | @step frame outer fs₁ fs' c v w r k counts hmove _ ih =>
    obtain ⟨frame', outer', rfl, rfl, rfl⟩ := List.map_eq_cons_iff.1 hfs
    have hmoved := Frame.move_unplaced frame' outer' p c (v ++ (w ++ r))
    rw [hmove, succeeded?_ok] at hmoved
    obtain ⟨m, hm, hunplaced⟩ := Option.map_eq_some_iff.1 hmoved
    rw [succeeded?_eq_some] at hm
    cases m with
    | stop => simp [Move.unplaced] at hunplaced
    | pass extra fs₂ counts' =>
      simp only [Move.unplaced, Move.pass.injEq] at hunplaced
      obtain ⟨rfl, hfs₂, rfl⟩ := hunplaced
      obtain ⟨fs₃, hfs₃, hscan⟩ :=
        ih hfs₂ (if counts' then p + (v.length + 1) else mark) (p + (v.length + 1))
      refine ⟨fs₃, hfs₃, ?_⟩
      rw [List.cons_append, List.append_assoc, scan_pass hm, hscan]
      have hmark : (if k = 0 then (if counts' then p + (v.length + 1) else mark)
            else p + (v.length + 1) + k)
          = if lastCounted (v.length + 1) (if counts' then v.length + 1 else 0) k = 0 then mark
            else p + lastCounted (v.length + 1) (if counts' then v.length + 1 else 0) k := by
        unfold lastCounted
        by_cases hk : k = 0
        · cases counts' <;> simp [hk]
        · have : v.length + 1 + k ≠ 0 := by omega
          simp only [hk, if_false, this]
          omega
      have hpos : p + (v.length + 1) + w.length = p + (c :: (v ++ w)).length := by
        simp only [List.length_cons, List.length_append]
        omega
      rw [hmark, hpos]

/-! ## Where the pass ends -/

/-- The pass ends in front of `r`. -/
def Halts (fs : List Frame) (r : List Char) : Prop :=
  fs = [] ∨ ∃ stops outer, fs = .expression stops :: outer ∧
    ∀ ch ∈ r.head?, (stops.contains ch || isClosingBracket ch) = true

theorem scan_halts {fs : List Frame} {r : List Char} (h : Halts (fs.map Frame.unplaced) r)
    (mark p : Nat) : scan fs mark ⟨p, r⟩ = .ok (mark, ⟨p, r⟩) := by
  rcases h with h | ⟨stops, outer, hfs, hr⟩
  · obtain rfl := List.map_eq_nil_iff.1 h
    exact scan_nil mark _
  · obtain ⟨frame, outer', rfl, hframe, -⟩ := List.map_eq_cons_iff.1 hfs
    have : frame = .expression stops := by
      cases frame <;> simp [Frame.unplaced] at hframe
      rw [hframe]
    subst this
    rw [scan]
    split
    · rfl
    · rename_i ch rest heq
      have hch := hr ch (by rw [show r = _ from heq]; rfl)
      simp only [Frame.move, if_pos hch]

theorem codeMove_ne_stop (frames : List Frame) (pos : Nat) (c : Char) (rest : List Char) :
    codeMove frames pos c rest ≠ .ok .stop := by
  intro hstop
  unfold codeMove at hstop
  repeat (first | split at hstop | simp at hstop)

theorem Frame.move_stop {frame : Frame} {outer : List Frame} {pos : Nat} {c : Char}
    {rest : List Char} (h : frame.move outer pos c rest = .ok .stop) :
    ∃ stops, frame = .expression stops ∧ (stops.contains c || isClosingBracket c) = true := by
  have hcode := fun fs => codeMove_ne_stop fs pos c rest
  cases frame with
  | expression stops =>
    simp only [Frame.move] at h
    split at h
    · rename_i hc
      exact ⟨stops, rfl, hc⟩
    · exact absurd h (hcode _)
  | bracket close =>
    simp only [Frame.move] at h
    split at h
    · simp at h
    · split at h
      · simp at h
      · exact absurd h (hcode _)
  | literal l =>
    simp only [Frame.move, literalMove] at h
    repeat (first | split at h | simp at h)
  | interpolation start =>
    simp only [Frame.move] at h
    split at h
    · simp at h
    · split at h
      · simp at h
      · exact absurd h (hcode _)

/-! ## What a step can do -/

theorem isClosingBracket_of_closingBracket? {ch close : Char}
    (h : closingBracket? ch = some close) :
    isClosingBracket close = true ∧ isSpace ch = false := by
  unfold closingBracket? at h
  split at h
  · rename_i hch
    obtain rfl := Option.some.inj h
    exact ⟨rfl, by rw [hch]; rfl⟩
  · split at h
    · rename_i hch
      obtain rfl := Option.some.inj h
      exact ⟨rfl, by rw [hch]; rfl⟩
    · split at h
      · rename_i hch
        obtain rfl := Option.some.inj h
        exact ⟨rfl, by rw [hch]; rfl⟩
      · exact absurd h nofun

/-- The ways to pass a character of code that closes nothing. -/
inductive CodePass (frames : List Frame) (pos : Nat) (c : Char) (rest : List Char) :
    Nat → List Frame → Bool → Prop
  | literal {l : OpenLiteral} {n : Nat} : openLiteral? pos (c :: rest) = some (l, n) →
      CodePass frames pos c rest (n - 1) (.literal l :: frames) true
  | line : c = '/' → rest.head? = some '/' →
      CodePass frames pos c rest (lineLength rest) frames false
  | block {n : Nat} : c = '/' → rest.head? = some '*' → commentLength? 1 0 rest.tail = some n →
      CodePass frames pos c rest (n + 1) frames false
  | bracket {close : Char} : closingBracket? c = some close →
      CodePass frames pos c rest 0 (.bracket close :: frames) true
  | plain : CodePass frames pos c rest 0 frames !isSpace c

/-- The ways to pass a character of a literal. -/
inductive LiteralPass (l : OpenLiteral) (outer : List Frame) (c : Char) (rest : List Char) :
    Nat → List Frame → Prop
  | close : l.closing.isPrefixOf (c :: rest) = true →
      LiteralPass l outer c rest (l.closing.length - 1) outer
  | escape : l.escape.isPrefixOf (c :: rest) = true →
      (rest.drop l.hashes).head? ≠ some '(' →
      LiteralPass l outer c rest (l.hashes + 1) (.literal l :: outer)
  | interpolation : l.escape.isPrefixOf (c :: rest) = true →
      (rest.drop l.hashes).head? = some '(' →
      LiteralPass l outer c rest (l.hashes + 1) (.interpolation l.start :: .literal l :: outer)
  | plain : LiteralPass l outer c rest 0 (.literal l :: outer)

/-- The ways to pass a character when a frame is innermost. All that is passed of a literal counts,
and so do closing brackets. -/
inductive FramePass (pos : Nat) (c : Char) (rest : List Char) :
    Frame → List Frame → Nat → List Frame → Bool → Prop
  | code {frame : Frame} {outer fs : List Frame} {extra : Nat} {counts : Bool} :
      CodePass (frame :: outer) pos c rest extra fs counts →
      FramePass pos c rest frame outer extra fs counts
  | bracket {outer : List Frame} : FramePass pos c rest (.bracket c) outer 0 outer true
  | interpolation {start : Nat} {outer : List Frame} :
      c = ')' → FramePass pos c rest (.interpolation start) outer 0 outer true
  | literal {l : OpenLiteral} {outer fs : List Frame} {extra : Nat} :
      LiteralPass l outer c rest extra fs → FramePass pos c rest (.literal l) outer extra fs true

variable {frames outer fs : List Frame} {frame : Frame} {pos extra : Nat} {c : Char}
  {rest : List Char} {counts : Bool}

theorem codePass_of_codeMove (h : codeMove frames pos c rest = .ok (.pass extra fs counts)) :
    CodePass frames pos c rest extra fs counts := by
  unfold codeMove at h
  split at h
  · split at h
    · rename_i hopen
      simp only [Except.ok.injEq, Move.pass.injEq] at h
      obtain ⟨rfl, rfl, rfl⟩ := h
      exact .literal hopen
    · simp at h
  · split at h
    · rename_i hline
      simp only [Except.ok.injEq, Move.pass.injEq] at h
      obtain ⟨rfl, rfl, rfl⟩ := h
      exact .line hline.1 hline.2
    · split at h
      · rename_i hblock
        split at h
        · rename_i hn
          simp only [Except.ok.injEq, Move.pass.injEq] at h
          obtain ⟨rfl, rfl, rfl⟩ := h
          exact .block hblock.1 hblock.2 hn
        · simp at h
      · split at h
        · rename_i hclose
          simp only [Except.ok.injEq, Move.pass.injEq] at h
          obtain ⟨rfl, rfl, rfl⟩ := h
          exact .bracket hclose
        · simp only [Except.ok.injEq, Move.pass.injEq] at h
          obtain ⟨rfl, rfl, rfl⟩ := h
          exact .plain

theorem literalPass_of_literalMove {l : OpenLiteral}
    (h : literalMove l outer c rest = .ok (.pass extra fs counts)) :
    LiteralPass l outer c rest extra fs ∧ counts = true := by
  unfold literalMove at h
  split at h
  · rename_i hclose
    simp only [Except.ok.injEq, Move.pass.injEq] at h
    obtain ⟨rfl, rfl, rfl⟩ := h
    exact ⟨.close hclose, rfl⟩
  · split at h
    · rename_i hescape
      simp only [Except.ok.injEq, Move.pass.injEq] at h
      obtain ⟨rfl, rfl, rfl⟩ := h
      refine ⟨?_, rfl⟩
      split
      · rename_i hopen
        exact .interpolation hescape hopen
      · rename_i hopen
        exact .escape hescape hopen
    · split at h
      · simp at h
      · simp only [Except.ok.injEq, Move.pass.injEq] at h
        obtain ⟨rfl, rfl, rfl⟩ := h
        exact ⟨.plain, rfl⟩

/-- A step that passes something does so in one of these ways. -/
theorem Frame.pass_of_move (h : frame.move outer pos c rest = .ok (.pass extra fs counts)) :
    FramePass pos c rest frame outer extra fs counts := by
  cases frame with
  | expression stops =>
    simp only [Frame.move] at h
    split at h
    · simp at h
    · exact .code (codePass_of_codeMove h)
  | bracket close =>
    simp only [Frame.move] at h
    split at h
    · rename_i hc
      simp only [Except.ok.injEq, Move.pass.injEq] at h
      obtain ⟨rfl, rfl, rfl⟩ := h
      exact hc ▸ .bracket
    · split at h
      · simp at h
      · exact .code (codePass_of_codeMove h)
  | interpolation start =>
    simp only [Frame.move] at h
    split at h
    · rename_i hc
      simp only [Except.ok.injEq, Move.pass.injEq] at h
      obtain ⟨rfl, rfl, rfl⟩ := h
      exact .interpolation hc
    · split at h
      · simp at h
      · exact .code (codePass_of_codeMove h)
  | literal l =>
    obtain ⟨hpass, rfl⟩ := literalPass_of_literalMove h
    exact .literal hpass

/-! ## The trace of a run -/

/-- The delimiter that opens a literal is found after the hash marks. -/
theorem openLiteral?_eq (pos : Nat) (cs : List Char) :
    openLiteral? pos cs =
      let hashes := (cs.takeWhile (· == '#')).length
      if (List.replicate 3 '"').isPrefixOf (cs.drop hashes) then
        some (⟨pos, hashes, true⟩, hashes + 3)
      else if (List.replicate 1 '"').isPrefixOf (cs.drop hashes) then
        some (⟨pos, hashes, false⟩, hashes + 1)
      else none := by
  unfold openLiteral?
  dsimp only
  split
  · rename_i heq
    rw [heq, if_pos (by simp [List.replicate])]
  · rename_i hthree heq
    rw [heq, if_neg, if_pos (by simp [List.replicate])]
    rw [List.isPrefixOf_iff_prefix]
    rintro ⟨tail, htail⟩
    exact hthree tail (by simpa [List.replicate] using htail.symm)
  · rename_i hone
    rw [if_neg, if_neg]
    · rw [List.isPrefixOf_iff_prefix]
      rintro ⟨tail, htail⟩
      exact hone _ htail.symm
    · rw [List.isPrefixOf_iff_prefix]
      rintro ⟨tail, htail⟩
      exact hone _ htail.symm

theorem openLiteral?_length {pos n : Nat} {cs : List Char} {l : OpenLiteral}
    (h : openLiteral? pos cs = some (l, n)) : 0 < n ∧ n ≤ cs.length := by
  have hhashes : (cs.takeWhile (· == '#')).length ≤ cs.length :=
    (List.takeWhile_prefix _).length_le
  unfold openLiteral? at h
  dsimp only at h
  split at h
  · rename_i heq
    have hlen := congrArg List.length heq
    simp only [List.length_drop, List.length_cons] at hlen
    obtain ⟨-, rfl⟩ := Prod.mk.inj (Option.some.inj h)
    omega
  · rename_i heq
    have hlen := congrArg List.length heq
    simp only [List.length_drop, List.length_cons] at hlen
    obtain ⟨-, rfl⟩ := Prod.mk.inj (Option.some.inj h)
    omega
  · simp at h

theorem CodePass.extra_le (h : CodePass frames pos c rest extra fs counts) :
    extra ≤ rest.length := by
  cases h with
  | literal hopen =>
    have hlength := openLiteral?_length hopen
    rw [List.length_cons] at hlength
    omega
  | line => exact (List.takeWhile_prefix _).length_le
  | block _ hhead hn =>
    obtain ⟨k, hk, hle, -⟩ := commentLength?_take hn
    obtain ⟨tail, rfl⟩ := List.head?_eq_some_iff.1 hhead
    rw [List.tail_cons] at hle
    rw [List.length_cons]
    omega
  | bracket | plain => exact Nat.zero_le _

/-- Only an escape at the very end passes more than there is, and leaves its literal open. -/
theorem Frame.move_extra (h : frame.move outer pos c rest = .ok (.pass extra fs counts)) :
    extra ≤ rest.length ∨ rest.drop extra = [] ∧ ∃ l, fs = .literal l :: outer := by
  have hescaped : ∀ {l : OpenLiteral}, rest.length ≤ l.hashes →
      rest.drop (l.hashes + 1) = [] := fun hge => List.drop_eq_nil_of_le (by omega)
  cases Frame.pass_of_move h with
  | code hcode => exact .inl hcode.extra_le
  | bracket | interpolation => exact .inl (Nat.zero_le _)
  | @literal l _ _ _ hpass =>
    cases hpass with
    | close hclose =>
      have hlength := (List.isPrefixOf_iff_prefix.1 hclose).length_le
      rw [List.length_cons] at hlength
      exact .inl (by omega)
    | escape =>
      rcases Nat.lt_or_ge l.hashes rest.length with hlt | hge
      · exact .inl hlt
      · exact .inr ⟨hescaped hge, l, rfl⟩
    | interpolation _ hopen =>
      refine .inl (Nat.lt_of_not_ge fun hge => ?_)
      simp [List.drop_eq_nil_of_le hge] at hopen
    | plain => exact .inl (Nat.zero_le _)

/-- A run that ends well has a trace, and ends where the pass ends. -/
theorem scan_spec {fs : List Frame} {mark mark' : Nat} {c c' : Cursor}
    (h : scan fs mark c = .ok (mark', c')) :
    ∃ w k fs', c.Moves w c' ∧ Passes (fs.map Frame.unplaced) w k fs' c'.rest ∧
      mark' = (if k = 0 then mark else c.pos + k) ∧ Halts fs' c'.rest := by
  fun_induction scan fs mark c with
  | case1 mark c =>
    obtain ⟨rfl, rfl⟩ := Prod.mk.inj (Except.ok.inj h)
    exact ⟨[], 0, [], .refl c, .nil, rfl, .inl rfl⟩
  | case2 => simp at h
  | case3 mark c frame outer hrest herror =>
    obtain ⟨rfl, rfl⟩ := Prod.mk.inj (Except.ok.inj h)
    refine ⟨[], 0, _, .refl c, .nil, rfl, .inr ?_⟩
    cases frame with
    | expression stops => exact ⟨stops, outer.map Frame.unplaced, rfl, by simp [hrest]⟩
    | bracket | literal | interpolation => simp [Frame.errorAtEnd?] at herror
  | case4 => simp at h
  | case5 mark c frame outer ch rest hrest hmove =>
    obtain ⟨rfl, rfl⟩ := Prod.mk.inj (Except.ok.inj h)
    obtain ⟨stops, rfl, hch⟩ := Frame.move_stop hmove
    refine ⟨[], 0, _, .refl c, .nil, rfl, .inr ⟨stops, outer.map Frame.unplaced, rfl, ?_⟩⟩
    intro x hx
    rw [hrest] at hx
    obtain rfl := Option.some.inj hx
    exact hch
  | case6 mark c frame outer ch rest hrest extra fs counts hmove c₁ ih =>
    rcases Frame.move_extra hmove with hextra | ⟨hdrop, l, rfl⟩
    · obtain ⟨w, k, fs', hmoves, hpasses, hmark, hhalts⟩ := ih h
      have hfirst : c.Moves (ch :: rest.take extra) c₁ := by
        have := Cursor.moves_advance (c := c) (n := extra + 1) (by simp [hrest, hextra])
        rwa [show c.rest.take (extra + 1) = ch :: rest.take extra by simp [hrest]] at this
      have hlen : (rest.take extra).length = extra := by
        rw [List.length_take]
        omega
      have hsplit : rest = rest.take extra ++ (w ++ c'.rest) := by
        rw [← hmoves.1, show c₁.rest = rest.drop extra by simp [c₁, hrest],
          List.take_append_drop]
      have hmoved := Frame.move_unplaced frame outer c.pos ch rest
      rw [hmove, succeeded?_ok, Option.map_some, eq_comm, succeeded?_eq_some] at hmoved
      have hstep := @Passes.step _ _ _ _ _ (rest.take extra) _ _ _ counts
        (by rw [← hsplit, hlen]; exact hmoved) hpasses
      refine ⟨_, _, fs', hfirst.trans hmoves, hstep, ?_, hhalts⟩
      have hpos : c₁.pos = c.pos + (extra + 1) := by
        rw [hfirst.2, List.length_cons, hlen]
      rw [hmark, hpos, hlen]
      unfold lastCounted
      by_cases hk : k = 0
      · cases counts <;> simp [hk]
      · have : extra + 1 + k ≠ 0 := by omega
        simp only [hk, if_false, this]
        omega
    · -- the literal is still open, and nothing is left to close it
      rw [scan] at h
      have hend : c₁.rest = [] := by simp [c₁, hrest, hdrop]
      split at h
      · simp [Frame.errorAtEnd?] at h
      · rename_i heq
        simp [hend] at heq

/-! ## Expressions

The frame of the expression itself is never closed and no second one is ever opened, so it lies
at the bottom of the stack for good; where the pass ends it is alone. -/

/-- The frame of a scanned expression. -/
def Frame.isExpression : Frame → Bool
  | .expression _ => true
  | _ => false

theorem CodePass.opens (h : CodePass frames pos c rest extra fs counts) :
    ∃ opened, fs = opened ++ frames ∧ ∀ f ∈ opened, f.isExpression = false := by
  cases h with
  | @literal l => exact ⟨[.literal l], rfl, by simp [Frame.isExpression]⟩
  | @bracket close => exact ⟨[.bracket close], rfl, by simp [Frame.isExpression]⟩
  | line | block | plain => exact ⟨[], rfl, by simp⟩

/-- A step closes the innermost frame or opens others inside it. -/
theorem Frame.move_frames (h : frame.move outer pos c rest = .ok (.pass extra fs counts)) :
    (fs = outer ∧ frame.isExpression = false) ∨
      ∃ opened, fs = opened ++ frame :: outer ∧ ∀ f ∈ opened, f.isExpression = false := by
  cases Frame.pass_of_move h with
  | code hcode => exact .inr hcode.opens
  | bracket | interpolation => exact .inl ⟨rfl, rfl⟩
  | @literal l _ _ _ hpass =>
    cases hpass with
    | close => exact .inl ⟨rfl, rfl⟩
    | escape | plain => exact .inr ⟨[], rfl, by simp⟩
    | interpolation => exact .inr ⟨[.interpolation l.start], rfl, by simp [Frame.isExpression]⟩

theorem Passes.bottom {stops : List Char} {fs fs' : List Frame} {w r : List Char} {k : Nat}
    (h : Passes fs w k fs' r)
    (hfs : ∃ xs, fs = xs ++ [.expression stops] ∧ ∀ f ∈ xs, f.isExpression = false) :
    ∃ xs, fs' = xs ++ [.expression stops] ∧ ∀ f ∈ xs, f.isExpression = false := by
  induction h with
  | nil => exact hfs
  | @step frame outer fs fs' c v w r k counts hmove _ ih =>
    refine ih ?_
    obtain ⟨xs, hxs, hall⟩ := hfs
    rcases Frame.move_frames hmove with ⟨rfl, hframe⟩ | ⟨opened, rfl, hopened⟩
    · cases xs with
      | nil =>
        obtain ⟨rfl, -⟩ := List.cons.inj hxs
        simp [Frame.isExpression] at hframe
      | cons x xs =>
        obtain ⟨-, rfl⟩ := List.cons.inj hxs
        exact ⟨xs, rfl, fun f hf => hall f (List.mem_cons_of_mem _ hf)⟩
    · refine ⟨opened ++ xs, by rw [hxs, List.append_assoc], ?_⟩
      intro f hf
      rcases List.mem_append.1 hf with hf | hf
      · exact hopened f hf
      · exact hall f hf

/-- An expression ends in front of `r`. -/
def EndsExpression (stops r : List Char) : Prop :=
  ∀ ch ∈ r.head?, (stops.contains ch || isClosingBracket ch) = true

theorem Passes.halts {stops : List Char} {fs : List Frame} {w r : List Char} {k : Nat}
    (h : Passes [.expression stops] w k fs r) (hr : Halts fs r) :
    fs = [.expression stops] ∧ EndsExpression stops r := by
  obtain ⟨xs, hxs, hall⟩ := h.bottom ⟨[], rfl, by simp⟩
  rcases hr with rfl | ⟨stops', outer, rfl, hr⟩
  · simp at hxs
  · cases xs with
    | nil =>
      obtain ⟨hstops, rfl⟩ := List.cons.inj hxs
      obtain rfl := Frame.expression.inj hstops
      exact ⟨rfl, hr⟩
    | cons x xs =>
      obtain ⟨rfl, -⟩ := List.cons.inj hxs
      have := hall _ List.mem_cons_self
      simp [Frame.isExpression] at this

/-- A text that is passed with only the expression itself open before and after. -/
abbrev PassesExpression (stops w : List Char) (k : Nat) (r : List Char) : Prop :=
  Passes [.expression stops] w k [.expression stops] r

theorem scan_expression {stops w r : List Char} {k : Nat} (h : PassesExpression stops w k r)
    (hr : EndsExpression stops r) (p : Nat) :
    scan [.expression stops] p ⟨p, w ++ r⟩ = .ok (p + k, ⟨p + w.length, r⟩) := by
  obtain ⟨fs', hfs', hscan⟩ := @scan_passes _ _ _ _ _ h [.expression stops] rfl p p
  rw [hscan, scan_halts (.inr ⟨stops, [], hfs', hr⟩)]
  by_cases hk : k = 0 <;> simp [hk]

theorem scan_expression_spec {stops : List Char} {mark' : Nat} {c c' : Cursor}
    (h : scan [.expression stops] c.pos c = .ok (mark', c')) :
    ∃ w k, c.Moves w c' ∧ PassesExpression stops w k c'.rest ∧ mark' = c.pos + k ∧
      EndsExpression stops c'.rest := by
  obtain ⟨w, k, fs', hmoves, hpasses, hmark, hhalts⟩ := scan_spec h
  obtain ⟨rfl, hends⟩ := Passes.halts hpasses hhalts
  refine ⟨w, k, hmoves, hpasses, ?_, hends⟩
  rw [hmark]
  split <;> omega

/-- The text of an expression is what is passed, up to the last character that counts. -/
theorem scanExpression_text {stops w r : List Char} {k : Nat} (h : PassesExpression stops w k r)
    (hr : EndsExpression stops r) (p : Nat) :
    scanExpression stops ⟨p, w ++ r⟩
      = .ok (String.ofList (trim (w.take k)), ⟨p + w.length, r⟩) := by
  have hslice : Cursor.slice ⟨p, w ++ r⟩ (p + k) = w.take k := by
    simp only [Cursor.slice, Nat.add_sub_cancel_left]
    rw [List.take_append_of_le_length h.counted_le]
  simp only [scanExpression, scan_expression h hr p, hslice]

theorem scanExpression_spec {stops : List Char} {text : String} {c c' : Cursor}
    (h : scanExpression stops c = .ok (text, c')) :
    ∃ w k, c.Moves w c' ∧ PassesExpression stops w k c'.rest ∧ EndsExpression stops c'.rest ∧
      text = String.ofList (trim (w.take k)) := by
  unfold scanExpression at h
  split at h
  · rename_i mark c₁ hscan
    obtain ⟨w, k, hmoves, hpasses, rfl, hends⟩ := scan_expression_spec hscan
    obtain ⟨rfl, rfl⟩ := Prod.mk.inj (Except.ok.inj h)
    refine ⟨w, k, hmoves, hpasses, hends, ?_⟩
    rw [Cursor.slice, Nat.add_sub_cancel_left, hmoves.1,
      List.take_append_of_le_length hpasses.counted_le]
  · simp at h

/-- A group is passed with its brackets. -/
theorem skipGroup_text {close o : Char} {w r : List Char} {k : Nat}
    (h : PassesExpression [] w k (close :: r)) (hclose : isClosingBracket close = true)
    (p : Nat) : skipGroup close ⟨p, o :: (w ++ close :: r)⟩ = .ok ⟨p + (w.length + 2), r⟩ := by
  have hends : EndsExpression [] (close :: r) := by
    intro ch hch
    obtain rfl := Option.some.inj hch
    simp [hclose]
  obtain ⟨fs', hfs', hscan⟩ := @scan_passes _ _ _ _ _ h [.expression []] rfl p (p + 1)
  rw [scan_halts (.inr ⟨[], [], hfs', hends⟩)] at hscan
  simp only [skipGroup, Cursor.advance_one_cons, hscan, Cursor.next?, List.head?_cons, if_true]
  congr 2
  omega

theorem skipGroup_spec {close o : Char} {c c' : Cursor} (hc : c.next? = some o)
    (h : skipGroup close c = .ok c') :
    ∃ w k, c.Moves (o :: (w ++ [close])) c' ∧ PassesExpression [] w k (close :: c'.rest) := by
  obtain ⟨rest, hrest⟩ := List.head?_eq_some_iff.1 hc
  unfold skipGroup at h
  split at h
  · simp at h
  · rename_i mark inner hscan
    obtain ⟨w, k, fs', hmoves, hpasses, -, hhalts⟩ := scan_spec hscan
    obtain ⟨rfl, -⟩ := Passes.halts hpasses hhalts
    split at h
    · rename_i hnext
      obtain rfl := Except.ok.inj h
      cases hinner : inner.rest with
      | nil => simp [Cursor.next?, hinner] at hnext
      | cons x rest' =>
        obtain rfl : x = close := by simpa [Cursor.next?, hinner] using hnext
        have hafter : (inner.advance 1).rest = rest' := by simp [hinner]
        refine ⟨w, k, ?_, by rw [hafter, ← hinner]; exact hpasses⟩
        have hlast : inner.Moves [x] (inner.advance 1) := by
          simp [Cursor.Moves, Cursor.advance, hinner]
        exact .cons hrest (hmoves.trans hlast)
    · simp at h

end LocalizedKeys.Swift
