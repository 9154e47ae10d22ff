import LocalizedKeys.Swift.Literal
import LocalizedKeys.Proofs.Names
import LocalizedKeys.Proofs.Passage

/-!
# Pieces of expressions

The passage of the pieces that expressions are put together from: characters without a meaning of
their own, among them those of names, and simple literals. In an expression or inside brackets a
piece leaves open what was open before, so pieces can be strung together with `Passes.append`.
-/

namespace LocalizedKeys.Swift

open Text

/-! ## Characters -/

/-- A character that neither opens nor closes anything, nor begins a comment. -/
def isPlainChar (c : Char) : Bool :=
  c != '"' && c != '#' && c != '/' && (closingBracket? c).isNone && !isClosingBracket c

/-- The frame is one of code, and the character does not end it. -/
def Frame.Admits : Frame → Char → Prop
  | .expression stops, c => c ∉ stops
  | .bracket close, c => c ≠ close
  | .interpolation _, c => c ≠ ')'
  | .literal _, _ => False

instance : ∀ (f : Frame) (c : Char), Decidable (f.Admits c)
  | .expression stops, c => inferInstanceAs (Decidable (c ∉ stops))
  | .bracket close, c => inferInstanceAs (Decidable (c ≠ close))
  | .interpolation _, c => inferInstanceAs (Decidable (c ≠ ')'))
  | .literal _, _ => inferInstanceAs (Decidable False)

theorem codeMove_plain (frames : List Frame) (pos : Nat) {c : Char} (rest : List Char)
    (h : isPlainChar c = true) :
    codeMove frames pos c rest = .ok (.pass 0 frames !isSpace c) := by
  simp only [isPlainChar, Bool.and_eq_true, bne_iff_ne, ne_eq, Option.isNone_iff_eq_none,
    Bool.not_eq_true'] at h
  obtain ⟨⟨⟨⟨hquote, hhash⟩, hslash⟩, hbracket⟩, -⟩ := h
  have hopens : opensLiteral c rest = false := by
    simp [opensLiteral, beq_eq_false_iff_ne.2 hquote, beq_eq_false_iff_ne.2 hhash]
  rw [codeMove, if_neg (by simp [hopens]), if_neg (fun h => hslash h.1),
    if_neg (fun h => hslash h.1), hbracket]

/-- A character that means nothing in code is passed in any frame of code. -/
theorem Frame.move_plain {frame : Frame} {c : Char} (hf : frame.Admits c)
    (hc : isPlainChar c = true) (outer : List Frame) (pos : Nat) (rest : List Char) :
    frame.move outer pos c rest = .ok (.pass 0 (frame :: outer) !isSpace c) := by
  have hclosing : isClosingBracket c = false := by
    simp only [isPlainChar, Bool.and_eq_true, Bool.not_eq_true'] at hc
    exact hc.2
  cases frame with
  | expression stops =>
    have hstops : stops.contains c = false := by simpa [Frame.Admits] using hf
    rw [Frame.move, if_neg (by rw [hstops, hclosing]; decide), codeMove_plain _ _ _ hc]
  | bracket close =>
    rw [Frame.move, if_neg hf, if_neg (by simp [hclosing]), codeMove_plain _ _ _ hc]
  | interpolation start =>
    rw [Frame.move, if_neg hf, if_neg (by simp [hclosing]), codeMove_plain _ _ _ hc]
  | literal l => exact absurd hf id

/-- Characters that mean nothing in code are passed, and count if they are not white space. -/
theorem passes_plain {f : Frame} {w : List Char}
    (hf : ∀ c ∈ w, f.Admits c) (hw : ∀ c ∈ w, isPlainChar c = true ∧ isSpace c = false)
    (outer : List Frame) (r : List Char) :
    Passes (f :: outer) w w.length (f :: outer) r := by
  induction w with
  | nil => exact .nil
  | cons c w ih =>
    have hfirst : Passes (f :: outer) [c] 1 (f :: outer) (w ++ r) := by
      have hmove := Frame.move_plain (hf c List.mem_cons_self) (hw c List.mem_cons_self).1 outer 0
        (w ++ r)
      rw [(hw c List.mem_cons_self).2] at hmove
      exact Passes.one (v := []) hmove
    have hrest := ih (fun d hd => hf d (List.mem_cons_of_mem _ hd))
      (fun d hd => hw d (List.mem_cons_of_mem _ hd))
    cases w with
    | nil => exact hfirst
    | cons d w => exact hfirst.append_counted hrest (List.cons_ne_nil _ _)

theorem isPlainChar_of_isSpace {c : Char} (hc : isSpace c = true) : isPlainChar c = true := by
  have hne : ∀ d, isSpace d = false → c ≠ d := by
    rintro d hd rfl
    simp [hc] at hd
  have h₁ := hne '"' (by decide)
  have h₂ := hne '#' (by decide)
  have h₃ := hne '/' (by decide)
  have h₄ := hne '(' (by decide)
  have h₅ := hne '[' (by decide)
  have h₆ := hne '\x7b' (by decide)
  have h₇ := hne ')' (by decide)
  have h₈ := hne ']' (by decide)
  have h₉ := hne '\x7d' (by decide)
  simp [isPlainChar, closingBracket?, isClosingBracket, *]

/-- Blanks are passed and do not count. -/
theorem passes_space {f : Frame} {c : Char} (hf : f.Admits c) (hc : isSpace c = true)
    (outer : List Frame) (r : List Char) :
    Passes (f :: outer) [c] 0 (f :: outer) r := by
  have hmove := Frame.move_plain hf (isPlainChar_of_isSpace hc) outer 0 r
  rw [hc] at hmove
  exact Passes.one (v := []) hmove

/-! ## Trivia -/

/-- In code a slash is passed as what it begins. -/
theorem Frame.move_slash {f : Frame} (h : f.Admits '/') (outer : List Frame) (rest : List Char) :
    f.move outer 0 '/' rest = codeMove (f :: outer) 0 '/' rest := by
  cases f with
  | expression stops =>
    have hstops : stops.contains '/' = false := by simpa [Frame.Admits] using h
    rw [Frame.move, if_neg (by rw [hstops]; decide)]
  | bracket close => rw [Frame.move, if_neg h, if_neg (by decide)]
  | interpolation start => rw [Frame.move, if_neg h, if_neg (by decide)]
  | literal l => exact absurd h id

/-- A line comment is passed in code and does not count. -/
theorem passes_line {f : Frame} {line r : List Char} (h : f.Admits '/') (hline : InLine line)
    (hr : AtLineEnd r) (outer : List Frame) :
    Passes (f :: outer) ('/' :: '/' :: line) 0 (f :: outer) r := by
  have hlength : lineLength (('/' :: line) ++ r) = ('/' :: line).length :=
    lineLength_append (List.forall_mem_cons.2 ⟨by decide, hline⟩) hr
  have hmove : f.move outer 0 '/' (('/' :: line) ++ r)
      = .ok (.pass ('/' :: line).length (f :: outer) false) := by
    rw [Frame.move_slash h, codeMove, if_neg (by simp [opensLiteral]), if_pos ⟨rfl, rfl⟩, hlength]
  exact Passes.one hmove

/-- A block comment is passed in code and does not count. -/
theorem passes_block {f : Frame} {body : List Char} (h : f.Admits '/') (hbody : EndsComment body)
    (outer : List Frame) (r : List Char) :
    Passes (f :: outer) ('/' :: '*' :: body) 0 (f :: outer) r := by
  have hmove : f.move outer 0 '/' (('*' :: body) ++ r)
      = .ok (.pass ('*' :: body).length (f :: outer) false) := by
    rw [Frame.move_slash h, codeMove, if_neg (by simp [opensLiteral]), if_neg (by simp),
      if_pos ⟨rfl, rfl⟩, List.cons_append, List.tail_cons, hbody.append]
    rfl
  exact Passes.one hmove

/-- Trivia is passed in code and does not count. -/
theorem passes_trivia {f : Frame} {w r : List Char} (h : Trivia w r)
    (hlayout : ∀ ch, isLayout ch = true → f.Admits ch) (hslash : f.Admits '/')
    (outer : List Frame) : Passes (f :: outer) w 0 (f :: outer) r := by
  induction h with
  | nil => exact .nil
  | layout hch _ ih =>
    exact (passes_space (hlayout _ hch) (isSpace_of_isLayout hch) outer _).append ih
  | line hline hend _ ih => exact (passes_line hslash hline hend outer).append ih
  | block hbody _ ih => exact (passes_block hslash hbody outer _).append ih

/-- Trivia on a line is passed in code and does not count. -/
theorem passes_inlineTrivia {f : Frame} {w r : List Char} (h : InlineTrivia w r)
    (hblank : ∀ ch, isBlank ch = true → f.Admits ch) (hslash : f.Admits '/')
    (outer : List Frame) : Passes (f :: outer) w 0 (f :: outer) r := by
  induction h with
  | nil => exact .nil
  | @blank ch w r hch _ ih =>
    have hlayout : isLayout ch = true := by simp [isLayout, hch]
    exact (passes_space (hblank _ hch) (isSpace_of_isLayout hlayout) outer _).append ih
  | line hline hend => exact passes_line hslash hline hend outer
  | block hbody _ ih => exact (passes_block hslash hbody outer _).append ih

/-! ## Names -/

theorem isPlainChar_of_isNamePart {c : Char} (h : isNamePart c = true) :
    isPlainChar c = true ∧ isSpace c = false := by
  have h₁ := ne_of_isNamePart (d := '"') h (by decide)
  have h₂ := ne_of_isNamePart (d := '#') h (by decide)
  have h₃ := ne_of_isNamePart (d := '/') h (by decide)
  have h₄ := ne_of_isNamePart (d := '(') h (by decide)
  have h₅ := ne_of_isNamePart (d := '[') h (by decide)
  have h₆ := ne_of_isNamePart (d := '\x7b') h (by decide)
  have h₇ := ne_of_isNamePart (d := ')') h (by decide)
  have h₈ := ne_of_isNamePart (d := ']') h (by decide)
  have h₉ := ne_of_isNamePart (d := '\x7d') h (by decide)
  refine ⟨by simp [isPlainChar, closingBracket?, isClosingBracket, *], ?_⟩
  cases hc : isSpace c with
  | false => rfl
  | true => simp [isNamePart_of_isSpace hc] at h

/-- A character of a name, backticks included. -/
def isNameChar (c : Char) : Bool := isNamePart c || c == backtick

theorem isPlainChar_of_isNameChar {c : Char} (h : isNameChar c = true) :
    isPlainChar c = true ∧ isSpace c = false := by
  simp only [isNameChar, Bool.or_eq_true, beq_iff_eq] at h
  rcases h with h | rfl
  · exact isPlainChar_of_isNamePart h
  · decide

theorem IsName.all {n : List Char} (h : IsName n) : ∀ c ∈ n, isNameChar c = true := by
  intro c hc
  rcases h with h | ⟨plain, hplain, rfl⟩
  · simp [isNameChar, h.all c hc]
  · simp only [List.mem_cons, List.mem_append, List.not_mem_nil, or_false] at hc
    rcases hc with rfl | hc | rfl
    · simp [isNameChar]
    · simp [isNameChar, hplain.all c hc]
    · simp [isNameChar]

theorem ne_of_isNameChar {c d : Char} (h : isNameChar c = true) (hd : isNameChar d = false) :
    c ≠ d := by
  rintro rfl
  simp [h] at hd

/-- A name is passed as a whole. -/
theorem passes_name {f : Frame} {n : List Char} (hn : IsName n)
    (hf : ∀ c, isNameChar c = true → f.Admits c) (outer : List Frame) (r : List Char) :
    Passes (f :: outer) n n.length (f :: outer) r :=
  passes_plain (fun c hc => hf c (hn.all c hc)) (fun c hc => isPlainChar_of_isNameChar (hn.all c hc))
    outer r

/-! ## Simple literals -/

theorem literal_closing (pos : Nat) : (⟨pos, 0, false⟩ : OpenLiteral).closing = ['"'] := rfl

theorem literal_escape (pos : Nat) : (⟨pos, 0, false⟩ : OpenLiteral).escape = ['\\'] := rfl

/-- What stands after the opening quote of a simple literal closes it, and not before its end. -/
theorem passes_closesSimply {body : List Char} (h : closesSimply body = true)
    (outer : List Frame) (r : List Char) :
    Passes (.literal ⟨0, 0, false⟩ :: outer) body body.length outer r := by
  fun_induction closesSimply body with
  | case1 c rest ih =>
    simp only [Bool.and_eq_true, bne_iff_ne, ne_eq] at h
    have hmove : Frame.move (.literal ⟨0, 0, false⟩) outer 0 '\\' ([c] ++ (rest ++ r))
        = .ok (.pass 1 (.literal ⟨0, 0, false⟩ :: outer) true) := by
      rw [Frame.move, literalMove, literal_closing, literal_escape]
      simp [h.1.1]
    have := Passes.step hmove (ih h.2)
    have hcount : lastCounted 2 2 rest.length = ('\\' :: c :: rest).length := by
      unfold lastCounted
      simp only [List.length_cons]
      split <;> omega
    rw [← hcount]
    exact this
  | case2 =>
    refine @Passes.one _ _ _ _ [] _ true ?_
    rw [Frame.move, literalMove, literal_closing]
    rfl
  | case3 c rest hescape hclose ih =>
    simp only [Bool.and_eq_true, bne_iff_ne, ne_eq, Bool.not_eq_true'] at h
    obtain ⟨⟨⟨hquote, hbackslash⟩, hend⟩, hrest⟩ := h
    have hmove : Frame.move (.literal ⟨0, 0, false⟩) outer 0 c ([] ++ (rest ++ r))
        = .ok (.pass 0 (.literal ⟨0, 0, false⟩ :: outer) true) := by
      rw [Frame.move, literalMove, literal_closing, literal_escape]
      simp [Ne.symm hquote, Ne.symm hbackslash, hend]
    have := Passes.step hmove (ih hrest)
    have hcount : lastCounted 1 1 rest.length = (c :: rest).length := by
      unfold lastCounted
      simp only [List.length_cons]
      split <;> omega
    rw [← hcount]
    exact this
  | case4 => simp at h

/-- Quotes around a text without quotes, backslashes and line ends. -/
def IsSimple (cs : List Char) : Prop := ∃ body, cs = '"' :: body ∧ closesSimply body = true

theorem isSimple_iff {text : String} : isSimpleLiteral text = true ↔ IsSimple text.toList := by
  unfold isSimpleLiteral IsSimple
  constructor
  · intro h
    split at h
    · rename_i rest heq
      exact ⟨rest, heq, h⟩
    · simp at h
  · rintro ⟨body, heq, h⟩
    rw [heq]
    exact h

theorem closesSimply_quote {rest : List Char} (h : closesSimply ('"' :: rest) = true) :
    rest = [] := by
  cases rest with
  | nil => rfl
  | cons d rest =>
    rw [closesSimply] at h
    · simp at h
    · simp
    · simp

theorem openLiteral?_simple {body r : List Char} (h : closesSimply body = true)
    (hr : r.head? ≠ some '"') (pos : Nat) :
    openLiteral? pos ('"' :: (body ++ r)) = some (⟨pos, 0, false⟩, 1) := by
  unfold openLiteral?
  simp only [List.takeWhile_cons, show ('"' == '#') = false from rfl, Bool.false_eq_true, if_false,
    List.length_nil, List.drop_zero]
  split
  · rename_i heq
    obtain ⟨tl, hbody⟩ : ∃ tl, body ++ r = '"' :: '"' :: tl := ⟨_, (List.cons.inj heq).2⟩
    exfalso
    cases body with
    | nil => simp [closesSimply] at h
    | cons d body =>
      obtain ⟨rfl, htl⟩ := List.cons.inj hbody
      obtain rfl := closesSimply_quote h
      exact hr (by rw [show r = '"' :: tl from htl]; rfl)
  · rfl
  · rename_i hne
    exact absurd rfl (hne _)

/-- A simple literal is passed as a whole. -/
theorem passes_simple {f : Frame} {cs : List Char} (h : IsSimple cs)
    (hf : f.Admits '"') (outer : List Frame) {r : List Char} (hr : r.head? ≠ some '"') :
    Passes (f :: outer) cs cs.length (f :: outer) r := by
  obtain ⟨body, rfl, hbody⟩ := h
  have hcode : codeMove (f :: outer) 0 '"' ([] ++ (body ++ r))
      = .ok (.pass 0 (.literal ⟨0, 0, false⟩ :: f :: outer) true) := by
    rw [codeMove, if_pos (by simp [opensLiteral]), List.nil_append,
      openLiteral?_simple hbody hr]
  have hmove : f.move outer 0 '"' ([] ++ (body ++ r))
      = .ok (.pass 0 (.literal ⟨0, 0, false⟩ :: f :: outer) true) := by
    cases f with
    | expression stops =>
      have hstops : stops.contains '"' = false := by simpa [Frame.Admits] using hf
      rw [Frame.move, if_neg (by rw [hstops]; decide), hcode]
    | bracket close => rw [Frame.move, if_neg hf, if_neg (by decide), hcode]
    | interpolation start => rw [Frame.move, if_neg hf, if_neg (by decide), hcode]
    | literal l => exact absurd hf id
  have := Passes.step hmove (passes_closesSimply hbody (f :: outer) r)
  have hcount : lastCounted 1 1 body.length = ('"' :: body).length := by
    unfold lastCounted
    simp only [List.length_cons]
    split <;> omega
  rw [← hcount]
  exact this

end LocalizedKeys.Swift
