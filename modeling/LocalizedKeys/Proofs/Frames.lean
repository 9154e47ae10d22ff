import LocalizedKeys.Proofs.Passage

/-!
# Reading with a stack and by calls

The pass over an expression keeps one stack of all that is open. What is on top of it is passed
without a look at what lies below, so a stack is read one part after the other (`scan_append`): a
string literal is passed as if it stood alone, and then the pass goes on where it was opened.

An interpolation is read like an expression that ends at a closing parenthesis
(`scan_interpolation`).
-/

namespace LocalizedKeys.Swift

open Text Cursor

/-! ## One step -/

theorem scan_end {c : Cursor} (hrest : c.rest = []) (frame : Frame) (outer : List Frame)
    (mark : Nat) :
    scan (frame :: outer) mark c =
      match frame.errorAtEnd? c.pos with
      | some e => .error e
      | none => .ok (mark, c) := by
  rw [scan]
  split
  · rfl
  · rename_i heq
    simp [hrest] at heq

/-- What comes of a move at a cursor. -/
def follow (mark : Nat) (c : Cursor) : Except SyntaxError Move → Except SyntaxError (Nat × Cursor)
  | .error e => .error e
  | .ok .stop => .ok (mark, c)
  | .ok (.pass extra frames counts) =>
    scan frames (if counts then (c.advance (extra + 1)).pos else mark) (c.advance (extra + 1))

theorem scan_step {c : Cursor} {ch : Char} {rest : List Char} (hrest : c.rest = ch :: rest)
    (frame : Frame) (outer : List Frame) (mark : Nat) :
    scan (frame :: outer) mark c = follow mark c (frame.move outer c.pos ch rest) := by
  rw [scan]
  split
  · rename_i heq
    simp [hrest] at heq
  · rename_i ch' rest' heq
    obtain ⟨rfl, rfl⟩ := List.cons.inj (hrest.symm.trans heq)
    cases frame.move outer c.pos ch rest with
    | error e => rfl
    | ok m => cases m <;> rfl

/-! ## Parts of a stack -/

/-- The move with more open further out. -/
def Move.inside (outer : List Frame) : Move → Move
  | .stop => .stop
  | .pass extra frames counts => .pass extra (frames ++ outer) counts

theorem codeMove_inside (frames outer : List Frame) (pos : Nat) (ch : Char) (rest : List Char) :
    codeMove (frames ++ outer) pos ch rest = (codeMove frames pos ch rest).map (Move.inside outer) := by
  unfold codeMove
  split
  · split <;> rfl
  · split
    · rfl
    · split
      · split <;> rfl
      · split <;> rfl

/-- What a frame does with a character does not depend on what it stands in. -/
theorem Frame.move_inside (frame : Frame) (outer outer' : List Frame) (pos : Nat) (ch : Char)
    (rest : List Char) :
    frame.move (outer ++ outer') pos ch rest
      = (frame.move outer pos ch rest).map (Move.inside outer') := by
  cases frame with
  | expression stops =>
    simp only [Frame.move]
    split
    · rfl
    · exact codeMove_inside (.expression stops :: outer) outer' pos ch rest
  | bracket close =>
    simp only [Frame.move]
    split
    · rfl
    · split
      · rfl
      · exact codeMove_inside (.bracket close :: outer) outer' pos ch rest
  | interpolation start =>
    simp only [Frame.move]
    split
    · rfl
    · split
      · rfl
      · exact codeMove_inside (.interpolation start :: outer) outer' pos ch rest
  | literal l =>
    simp only [Frame.move, literalMove]
    split
    · rfl
    · split
      · simp [Except.map, Move.inside]
      · split <;> rfl

/-- A stack is read one part after the other. -/
theorem scan_append {fs : List Frame} (hfs : ∀ f ∈ fs, f.isExpression = false)
    (outer : List Frame) (mark : Nat) (c : Cursor) :
    scan (fs ++ outer) mark c =
      match scan fs mark c with
      | .error e => .error e
      | .ok (m, c') => scan outer m c' := by
  fun_induction scan fs mark c with
  | case1 mark c => rfl
  | case2 mark c frame fs hrest e herror =>
    rw [List.cons_append, scan_end hrest, herror]
  | case3 mark c frame fs hrest hnone =>
    -- only an expression can end with the text
    have hframe := hfs frame (List.mem_cons_self ..)
    cases frame <;> simp [Frame.errorAtEnd?, Frame.isExpression] at hnone hframe
  | case4 mark c frame fs ch rest hrest e hmove =>
    rw [List.cons_append, scan_step hrest, Frame.move_inside, hmove]
    rfl
  | case5 mark c frame fs ch rest hrest hmove =>
    obtain ⟨stops, rfl, -⟩ := Frame.move_stop hmove
    simp [Frame.isExpression] at hfs
  | case6 mark c frame fs ch rest hrest extra frames counts hmove c' ih =>
    rw [List.cons_append, scan_step hrest, Frame.move_inside, hmove]
    refine ih fun f hf => ?_
    rcases Frame.move_frames hmove with ⟨rfl, -⟩ | ⟨opened, rfl, hopened⟩
    · exact hfs f (List.mem_cons_of_mem _ hf)
    · rcases List.mem_append.1 hf with hf | hf
      · exact hopened f hf
      · exact hfs f hf

/-! ## Interpolations -/

/-- What comes of an interpolation when it is read as an expression. -/
def closeInterpolation (start : Nat) :
    Except SyntaxError (Nat × Cursor) → Except SyntaxError (Nat × Cursor)
  | .error e => .error e
  | .ok (_, c) =>
    if c.next? = some ')' then .ok ((c.advance 1).pos, c.advance 1)
    else .error (.unterminated .stringLiteral start)

/-- An interpolation is an expression up to a closing parenthesis. -/
theorem scan_interpolation (start mark : Nat) (c : Cursor) :
    scan [.interpolation start] mark c
      = closeInterpolation start (scan [.expression [')']] mark c) := by
  induction hlength : c.rest.length using Nat.strongRecOn generalizing mark c with
  | ind n ih =>
    subst hlength
    cases hrest : c.rest with
    | nil =>
      rw [scan_end hrest, scan_end hrest]
      simp [Frame.errorAtEnd?, closeInterpolation, Cursor.next?, hrest]
    | cons ch rest =>
      rw [scan_step hrest, scan_step hrest]
      by_cases hclose : ch = ')'
      · subst hclose
        simp [Frame.move, follow, closeInterpolation, Cursor.next?, hrest, scan_nil]
      by_cases hother : isClosingBracket ch = true
      · simp [Frame.move, follow, closeInterpolation, Cursor.next?, hrest, hclose, hother]
      -- both go on in the same way, with the same frames on top
      have hinterpolation : (Frame.interpolation start).move [] c.pos ch rest
          = (codeMove [] c.pos ch rest).map (Move.inside [.interpolation start]) := by
        rw [Frame.move, if_neg hclose, if_neg hother]
        exact codeMove_inside [] [.interpolation start] c.pos ch rest
      have hexpression : (Frame.expression [')']).move [] c.pos ch rest
          = (codeMove [] c.pos ch rest).map (Move.inside [.expression [')']]) := by
        rw [Frame.move, if_neg (by simp [hclose, hother])]
        exact codeMove_inside [] [.expression [')']] c.pos ch rest
      rw [hinterpolation, hexpression]
      cases hmove : codeMove [] c.pos ch rest with
      | error e => rfl
      | ok m =>
        cases m with
        | stop => exact absurd hmove (codeMove_ne_stop _ _ _ _)
        | pass extra fs counts =>
          obtain ⟨opened, rfl, hopened⟩ := (codePass_of_codeMove hmove).opens
          simp only [Except.map, Move.inside, List.append_nil, follow]
          rw [scan_append hopened, scan_append hopened]
          cases hopenedScan : scan opened _ (c.advance (extra + 1)) with
          | error e => rfl
          | ok r =>
            have hle := scan_length_le hopenedScan
            refine ih r.2.rest.length ?_ r.1 r.2 rfl
            rw [Cursor.length_advance] at hle
            simp only [hrest, List.length_cons] at hle ⊢
            omega

/-- An interpolation is read like that wherever it stands, and then what is around it goes on. -/
theorem scan_interpolation_cons (start : Nat) (outer : List Frame) (mark : Nat) (c : Cursor) :
    scan (.interpolation start :: outer) mark c =
      match scan [.expression [')']] mark c with
      | .error e => .error e
      | .ok (_, c') =>
        if c'.next? = some ')' then scan outer (c'.advance 1).pos (c'.advance 1)
        else .error (.unterminated .stringLiteral start) := by
  rw [← List.singleton_append, scan_append (by simp [Frame.isExpression]), scan_interpolation]
  cases scan [.expression [')']] mark c with
  | error e => rfl
  | ok r =>
    obtain ⟨m, c'⟩ := r
    rw [closeInterpolation]
    by_cases hclose : c'.next? = some ')'
    · rw [if_pos hclose]
      exact (if_pos hclose).symm
    · rw [if_neg hclose]
      exact (if_neg hclose).symm

/-! ## Literals -/

theorem bind_eq_ok {ε α β : Type} {x : Except ε α} {f : α → Except ε β} {b : β} :
    x >>= f = .ok b ↔ ∃ a, x = .ok a ∧ f a = .ok b := by
  constructor
  · intro h
    cases x with
    | error e => exact absurd h nofun
    | ok a => exact ⟨a, rfl, h⟩
  · intro h
    obtain ⟨a, rfl, ha⟩ := h
    exact ha

/-- One round inside a string literal. -/
theorem scan_literal_step (l : OpenLiteral) (mark : Nat) (c : Cursor) :
    scan [.literal l] mark c =
      match c.rest with
      | [] => .error (.unterminated .stringLiteral l.start)
      | ch :: _ =>
        if c.startsWith l.closing then
          .ok ((c.advance l.closing.length).pos, c.advance l.closing.length)
        else if c.startsWith l.escape then
          let inner := c.advance (l.escape.length + 1)
          if (c.advance l.escape.length).next? = some '(' then
            scan [.expression [')']] inner.pos inner >>= fun (_, c₁) =>
              if c₁.next? = some ')' then scan [.literal l] (c₁.advance 1).pos (c₁.advance 1)
              else .error (.unterminated .stringLiteral l.start)
          else scan [.literal l] inner.pos inner
        else if !l.multiline && isLineEnd ch then .error (.unterminated .stringLiteral l.start)
        else scan [.literal l] (c.advance 1).pos (c.advance 1) := by
  cases hrest : c.rest with
  | nil => rw [scan_end hrest]; rfl
  | cons ch rest =>
    have hclosing : l.closing.isPrefixOf (ch :: rest) = c.startsWith l.closing := by
      rw [Cursor.startsWith, hrest]
    have hescape : l.escape.isPrefixOf (ch :: rest) = c.startsWith l.escape := by
      rw [Cursor.startsWith, hrest]
    rw [scan_step hrest, Frame.move, literalMove, hclosing, hescape]
    dsimp only
    by_cases hcloses : c.startsWith l.closing = true
    · have hlength : l.closing.length - 1 + 1 = l.closing.length := by
        simp only [OpenLiteral.closing, List.length_append, List.length_replicate]
        split <;> omega
      rw [if_pos hcloses, if_pos hcloses]
      simp only [follow, hlength, if_true, scan_nil]
    rw [if_neg hcloses, if_neg hcloses]
    by_cases hescapes : c.startsWith l.escape = true
    · have hlength : l.escape.length = l.hashes + 1 := by simp [OpenLiteral.escape]
      have hnext : (c.advance (l.hashes + 1)).next? = (rest.drop l.hashes).head? := by
        rw [Cursor.next?, advance_rest, hrest, List.drop_succ_cons]
      rw [if_pos hescapes, if_pos hescapes, hlength, hnext]
      by_cases hopen : (rest.drop l.hashes).head? = some '('
      · -- the interpolation is read on its own, and then the literal goes on
        rw [if_pos hopen, if_pos hopen]
        dsimp only [List.singleton_append, follow]
        rw [if_pos rfl, scan_interpolation_cons]
        cases scan [.expression [')']] (c.advance (l.hashes + 1 + 1)).pos
          (c.advance (l.hashes + 1 + 1)) <;> rfl
      · rw [if_neg hopen, if_neg hopen]
        rfl
    · rw [if_neg hescapes, if_neg hescapes]
      by_cases hbreak : (!l.multiline && isLineEnd ch) = true
      · rw [if_pos hbreak, if_pos hbreak]
        rfl
      · rw [if_neg hbreak, if_neg hbreak]
        rfl

/-- What counted before a literal has no part in how it is passed. -/
theorem scan_literal_mark (l : OpenLiteral) (mark mark' : Nat) (c : Cursor) :
    scan [.literal l] mark c = scan [.literal l] mark' c := by
  rw [scan_literal_step l mark, scan_literal_step l mark']

/-- A literal counts to its end. -/
theorem scan_literal_counts {l : OpenLiteral} {mark mark' : Nat} {c c' : Cursor}
    (h : scan [.literal l] mark c = .ok (mark', c')) : mark' = c'.pos := by
  induction hlength : c.rest.length using Nat.strongRecOn generalizing mark c with
  | ind n ih =>
    subst hlength
    cases hrest : c.rest with
    | nil => simp [scan_literal_step, hrest] at h
    | cons ch rest =>
      have hshorter : ∀ n, (c.advance (n + 1)).rest.length < c.rest.length := by
        intro n
        rw [length_advance, hrest, List.length_cons]
        omega
      rw [scan_literal_step, hrest] at h
      dsimp only at h
      split at h
      · obtain ⟨rfl, rfl⟩ := Prod.mk.inj (Except.ok.inj h)
        rfl
      · split at h
        · split at h
          · obtain ⟨r, hscan, hrun⟩ := bind_eq_ok.1 h
            have hle := scan_length_le hscan
            split at hrun
            · refine ih _ ?_ hrun rfl
              have := hshorter l.escape.length
              rw [length_advance]
              omega
            · simp at hrun
          · exact ih _ (hshorter _) h rfl
        · split at h
          · simp at h
          · exact ih _ (hshorter 0) h rfl

/-- A string literal is passed by itself, and then what is around it goes on. -/
theorem scan_literal_cons (l : OpenLiteral) (outer : List Frame) (mark : Nat) (c : Cursor) :
    scan (.literal l :: outer) mark c =
      match scan [.literal l] c.pos c with
      | .error e => .error e
      | .ok (_, c') => scan outer c'.pos c' := by
  rw [← List.singleton_append, scan_append (by simp [Frame.isExpression]),
    scan_literal_mark l mark c.pos]
  cases h : scan [.literal l] c.pos c with
  | error e => rfl
  | ok r =>
    obtain ⟨m, c'⟩ := r
    rw [scan_literal_counts h]

/-! ## Expressions -/

/-- The frames of an expression with open brackets. -/
def framesOf (stops opened : List Char) : List Frame :=
  opened.map .bracket ++ [.expression stops]

/-- What comes of a character that closes nothing does not depend on what is open. -/
theorem framesOf_move {stops opened : List Char}
    (hopened : ∀ close ∈ opened, isClosingBracket close = true) {ch : Char}
    (hcloses : isClosingBracket ch = false) (hstops : opened = [] → stops.contains ch = false)
    (pos : Nat) (rest : List Char) :
    ∃ frame outer, framesOf stops opened = frame :: outer ∧
      frame.move outer pos ch rest = codeMove (framesOf stops opened) pos ch rest := by
  cases opened with
  | nil =>
    have hgoes : ¬(stops.contains ch || isClosingBracket ch) = true := by
      rw [hstops rfl, hcloses]
      exact Bool.false_ne_true
    exact ⟨_, _, rfl, if_neg hgoes⟩
  | cons close opened =>
    have hne : ch ≠ close := by
      rintro rfl
      exact Bool.false_ne_true (hcloses.symm.trans (hopened ch List.mem_cons_self))
    refine ⟨_, _, rfl, ?_⟩
    rw [Frame.move, if_neg hne, if_neg (by rw [hcloses]; exact Bool.false_ne_true)]
    rfl

/-- A closing bracket is nothing else. -/
theorem plain_of_isClosingBracket {ch : Char} (h : isClosingBracket ch = true) :
    (∀ rest, opensLiteral ch rest = false) ∧ ch ≠ '/' ∧ closingBracket? ch = none ∧
      isSpace ch = false := by
  simp only [isClosingBracket, Bool.or_eq_true, beq_iff_eq] at h
  rcases h with (rfl | rfl) | rfl <;> exact ⟨fun _ => rfl, nofun, rfl, rfl⟩

/-- The brackets that wait to be closed after a character of code. -/
def bracketsAfter (opened : List Char) (ch : Char) (pos : Nat) : Except SyntaxError (List Char) :=
  match closingBracket? ch with
  | some close => .ok (close :: opened)
  | none =>
    if isClosingBracket ch then
      match opened with
      | [] => .error (.unexpected (some ch) .declaration pos)
      | close :: outer =>
        if ch = close then .ok outer else .error (.unexpected (some ch) (.mark close) pos)
    else .ok opened

theorem bracketsAfter_cons {ch : Char} (h : isClosingBracket ch = true) (close : Char)
    (outer : List Char) (pos : Nat) :
    bracketsAfter (close :: outer) ch pos =
      if ch = close then .ok outer else .error (.unexpected (some ch) (.mark close) pos) := by
  simp [bracketsAfter, h, (plain_of_isClosingBracket h).2.2.1]

/-- Open brackets wait for closing ones. -/
theorem bracketsAfter_closing {opened opened' : List Char} {ch : Char} {pos : Nat}
    (hopened : ∀ close ∈ opened, isClosingBracket close = true)
    (h : bracketsAfter opened ch pos = .ok opened') :
    ∀ close ∈ opened', isClosingBracket close = true := by
  rw [bracketsAfter.eq_def] at h
  split at h
  · rename_i close hclose
    obtain rfl := Except.ok.inj h
    exact List.forall_mem_cons.2 ⟨(isClosingBracket_of_closingBracket? hclose).1, hopened⟩
  · split at h
    · split at h
      · simp at h
      · split at h
        · obtain rfl := Except.ok.inj h
          exact fun close hmem => hopened close (List.mem_cons_of_mem _ hmem)
        · simp at h
    · obtain rfl := Except.ok.inj h
      exact hopened

/-- What comes of a character that begins something: a literal, a comment or a bracket, or that
means nothing. -/
theorem follow_codeMove_eq {ch : Char} {rest : List Char} {c : Cursor} (hrest : c.rest = ch :: rest)
    (hclosing : isClosingBracket ch = false) (stops opened : List Char) (mark : Nat) :
    follow mark c (codeMove (framesOf stops opened) c.pos ch rest) =
      if opensLiteral ch rest then
        skipStringLiteral c >>= fun c₁ => scan (framesOf stops opened) c₁.pos c₁
      else if c.startsWith ['/', '/'] then
        scan (framesOf stops opened) mark (c.advance (lineLength c.rest))
      else if c.startsWith ['/', '*'] then
        skipBlockComment c >>= fun c₁ => scan (framesOf stops opened) mark c₁
      else
        bracketsAfter opened ch c.pos >>= fun opened' =>
          scan (framesOf stops opened') (if isSpace ch then mark else (c.advance 1).pos)
            (c.advance 1) := by
  by_cases hliteral : opensLiteral ch rest = true
  · rw [codeMove, if_pos hliteral, if_pos hliteral, skipStringLiteral, hrest]
    cases hopen : openLiteral? c.pos (ch :: rest) with
    | none => rfl
    | some r =>
      obtain ⟨l, n⟩ := r
      have hn := (openLiteral?_length hopen).1
      dsimp only [follow]
      rw [scan_literal_cons, Nat.sub_add_cancel hn,
        scan_literal_mark l (c.advance n).pos c.pos]
      cases scan [.literal l] c.pos (c.advance n) <;> rfl
  rw [codeMove, if_neg hliteral, if_neg hliteral]
  by_cases hline : ch = '/' ∧ rest.head? = some '/'
  · obtain ⟨rfl, hhead⟩ := hline
    obtain ⟨tail, rfl⟩ := List.head?_eq_some_iff.1 hhead
    rw [if_pos ⟨rfl, hhead⟩, if_pos ((startsWith_two _ _).2 ⟨_, hrest⟩), hrest,
      lineLength_slash ('/' :: tail)]
    rfl
  have hlines : ¬c.startsWith ['/', '/'] = true := by
    intro hstarts
    obtain ⟨tail, htail⟩ := (startsWith_two _ _).1 hstarts
    obtain ⟨rfl, rfl⟩ := List.cons.inj (hrest.symm.trans htail)
    exact hline ⟨rfl, rfl⟩
  rw [if_neg hline, if_neg hlines]
  by_cases hblock : ch = '/' ∧ rest.head? = some '*'
  · obtain ⟨rfl, hhead⟩ := hblock
    obtain ⟨tail, rfl⟩ := List.head?_eq_some_iff.1 hhead
    rw [if_pos ⟨rfl, hhead⟩, if_pos ((startsWith_two _ _).2 ⟨_, hrest⟩), skipBlockComment_eq hrest,
      List.tail_cons]
    cases commentLength? 1 0 tail <;> rfl
  have hblocks : ¬c.startsWith ['/', '*'] = true := by
    intro hstarts
    obtain ⟨tail, htail⟩ := (startsWith_two _ _).1 hstarts
    obtain ⟨rfl, rfl⟩ := List.cons.inj (hrest.symm.trans htail)
    exact hblock ⟨rfl, rfl⟩
  rw [if_neg hblock, if_neg hblocks]
  cases hbracket : closingBracket? ch with
  | some close =>
    have hafter : bracketsAfter opened ch c.pos = .ok (close :: opened) := by
      simp [bracketsAfter, hbracket]
    rw [hafter, (isClosingBracket_of_closingBracket? hbracket).2]
    rfl
  | none =>
    have hafter : bracketsAfter opened ch c.pos = .ok opened := by
      simp [bracketsAfter, hbracket, hclosing]
    rw [hafter]
    cases hspace : isSpace ch <;> rfl

theorem scan_framesOf {stops opened : List Char}
    (hopened : ∀ close ∈ opened, isClosingBracket close = true) (mark : Nat) (c : Cursor) :
    scan (framesOf stops opened) mark c =
      match c.rest with
      | [] => if opened.isEmpty then .ok (mark, c) else .error (.unexpectedEnd c.pos)
      | ch :: rest =>
        if opened.isEmpty && (stops.contains ch || isClosingBracket ch) then .ok (mark, c)
        else if opensLiteral ch rest then
          skipStringLiteral c >>= fun c₁ => scan (framesOf stops opened) c₁.pos c₁
        else if c.startsWith ['/', '/'] then
          scan (framesOf stops opened) mark (c.advance (lineLength c.rest))
        else if c.startsWith ['/', '*'] then
          skipBlockComment c >>= fun c₁ => scan (framesOf stops opened) mark c₁
        else
          bracketsAfter opened ch c.pos >>= fun opened' =>
            scan (framesOf stops opened') (if isSpace ch then mark else (c.advance 1).pos)
              (c.advance 1) := by
  cases hrest : c.rest with
  | nil =>
    cases opened with
    | nil => exact scan_end hrest _ _ _
    | cons close opened => exact scan_end hrest _ _ _
  | cons ch rest =>
    dsimp only
    by_cases hcloses : isClosingBracket ch = true
    · -- a closing bracket begins nothing
      obtain ⟨hliteral, hslash, -, hspace⟩ := plain_of_isClosingBracket hcloses
      have hplain : ∀ next, ¬c.startsWith ['/', next] = true := by
        intro next hstarts
        obtain ⟨rest', hrest'⟩ := (startsWith_two _ _).1 hstarts
        exact hslash (List.cons.inj (hrest.symm.trans hrest')).1
      cases opened with
      | nil =>
        rw [framesOf, List.map_nil, List.nil_append, scan_step hrest, Frame.move, hcloses]
        simp [follow]
      | cons close opened =>
        rw [framesOf, List.map_cons, List.cons_append, scan_step hrest, Frame.move, hliteral,
          bracketsAfter_cons hcloses, hspace]
        simp only [hcloses, List.isEmpty_cons, Bool.false_and, Bool.false_eq_true, if_false,
          hplain, if_true]
        by_cases hch : ch = close
        · rw [if_pos hch, if_pos hch]
          rfl
        · rw [if_neg hch, if_neg hch]
          rfl
    rw [Bool.not_eq_true] at hcloses
    by_cases hstop : (opened.isEmpty && (stops.contains ch || isClosingBracket ch)) = true
    · obtain ⟨hempty, hends⟩ := Bool.and_eq_true_iff.1 hstop
      obtain rfl := List.isEmpty_iff.1 hempty
      rw [if_pos hstop, framesOf, List.map_nil, List.nil_append, scan_step hrest, Frame.move,
        if_pos hends]
      rfl
    have hstops : opened = [] → stops.contains ch = false := by
      intro hempty
      simpa [hempty, hcloses] using hstop
    obtain ⟨frame, outer, hframes, hmove⟩ := framesOf_move hopened hcloses hstops c.pos rest
    rw [if_neg hstop, hframes, scan_step hrest, hmove, ← hframes, follow_codeMove_eq hrest hcloses,
      hrest]

end LocalizedKeys.Swift
