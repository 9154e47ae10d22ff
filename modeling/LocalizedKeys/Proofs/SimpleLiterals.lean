import LocalizedKeys.Proofs.Pieces
import LocalizedKeys.Proofs.Tokens

/-!
# Simple literals and the pass over literals

Whether a literal is simple is decided by a look at its characters alone (`closesSimply`), and where
a literal ends is found by the pass. They see the same end. After one quote both go through the text
by the same pieces: an escape with the character behind it, the closing quote, or another character.
What the pass allows and a simple literal does not is an escape that continues the line or begins an
interpolation.
-/

namespace LocalizedKeys.Swift

open Text Cursor

/-- The characters that stand behind a backslash, where a backslash and the character behind it are
read together. -/
def escaped : List Char → List Char
  | '\\' :: c :: rest => c :: escaped rest
  | _ :: rest => escaped rest
  | [] => []

/-- A literal without hash marks and with one quote, opened at an offset. -/
abbrev plainLiteral (start : Nat) : OpenLiteral := ⟨start, 0, false⟩

variable {start mark p : Nat} {c : Char} {rest : List Char}

/-! ## One piece of a literal -/

theorem scan_plainLiteral_end :
    scan [.literal (plainLiteral start)] mark ⟨p, []⟩
      = .error (.unterminated .stringLiteral start) :=
  scan_end rfl _ _ _

theorem scan_plainLiteral_quote :
    scan [.literal (plainLiteral start)] mark ⟨p, '"' :: rest⟩ = .ok (p + 1, ⟨p + 1, rest⟩) := by
  rw [scan_step rfl, Frame.move, literalMove, literal_closing]
  simp [follow, scan_nil, advance_one_cons]

theorem scan_plainLiteral_escape (hc : c ≠ '(') :
    scan [.literal (plainLiteral start)] mark ⟨p, '\\' :: c :: rest⟩
      = scan [.literal (plainLiteral start)] (p + 2) ⟨p + 2, rest⟩ := by
  have hadvance := advance_append p ['\\', c] rest
  rw [scan_step rfl, Frame.move, literalMove, literal_closing, literal_escape]
  simp only [List.length_cons, List.length_nil, List.cons_append, List.nil_append] at hadvance
  simp [follow, hc, hadvance]

theorem scan_plainLiteral_backslash :
    scan [.literal (plainLiteral start)] mark ⟨p, ['\\']⟩
      = .error (.unterminated .stringLiteral start) := by
  rw [scan_step rfl, Frame.move, literalMove, literal_closing, literal_escape]
  exact scan_plainLiteral_end

theorem scan_plainLiteral_lineEnd (hc : isLineEnd c = true) :
    scan [.literal (plainLiteral start)] mark ⟨p, c :: rest⟩
      = .error (.unterminated .stringLiteral start) := by
  have hne : ∀ d, isLineEnd d = false → d ≠ c := by
    intro d hd heq
    rw [heq, hc] at hd
    contradiction
  have hquote := hne '"' rfl
  have hbackslash := hne '\\' rfl
  rw [scan_step rfl, Frame.move, literalMove, literal_closing, literal_escape]
  simp [follow, hquote, hbackslash, hc]

theorem scan_plainLiteral_other (hquote : c ≠ '"') (hbackslash : c ≠ '\\')
    (hline : isLineEnd c = false) :
    scan [.literal (plainLiteral start)] mark ⟨p, c :: rest⟩
      = scan [.literal (plainLiteral start)] (p + 1) ⟨p + 1, rest⟩ := by
  rw [scan_step rfl, Frame.move, literalMove, literal_closing, literal_escape]
  simp [follow, Ne.symm hquote, Ne.symm hbackslash, hline, advance_one_cons]

/-! ## The whole literal -/

/-- The pass closes a literal with the last character of a text and not before. -/
def ClosesAtEnd (start mark : Nat) (c : Cursor) : Prop :=
  ∃ mark' c', scan [.literal (plainLiteral start)] mark c = .ok (mark', c') ∧ c'.rest = []

theorem closesAtEnd_quote : ClosesAtEnd start mark ⟨p, '"' :: rest⟩ ↔ rest = [] := by
  rw [ClosesAtEnd, scan_plainLiteral_quote]
  constructor
  · intro h
    obtain ⟨mark', c', heq, hrest⟩ := h
    rw [← hrest, ← (Prod.mk.inj (Except.ok.inj heq)).2]
  · intro h
    exact ⟨_, _, rfl, h⟩

theorem not_closesAtEnd {c : Cursor} {e : SyntaxError}
    (h : scan [.literal (plainLiteral start)] mark c = .error e) :
    ¬ClosesAtEnd start mark c := by
  intro hcloses
  obtain ⟨mark', c', heq, -⟩ := hcloses
  rw [h] at heq
  contradiction

theorem escaped_cons (hbackslash : c ≠ '\\') : escaped (c :: rest) = escaped rest := by
  rw [escaped]
  intro d rest' h
  exact absurd h hbackslash

/-- Behind an opening quote the two agree. -/
theorem closesSimply_iff_closesAtEnd (body : List Char) (start mark p : Nat) :
    closesSimply body = true ↔ ClosesAtEnd start mark ⟨p, body⟩ ∧
      ∀ c ∈ escaped body, c ≠ '(' ∧ isLineEnd c = false := by
  fun_induction closesSimply body generalizing mark p with
  | case1 c rest ih =>
    rw [escaped, List.forall_mem_cons]
    by_cases hc : c = '('
    · simp [hc]
    · have hrest := ih (p + 2) (p + 2)
      rw [ClosesAtEnd] at hrest ⊢
      rw [scan_plainLiteral_escape hc, Bool.and_eq_true, Bool.and_eq_true, hrest]
      simp only [bne_iff_ne, Bool.not_eq_true', ne_eq, hc, not_false_eq_true, true_and]
      exact and_left_comm
  | case2 => simp [closesAtEnd_quote, escaped]
  | case3 c rest hescape hclose ih =>
    by_cases hquote : c = '"'
    · -- the literal closes, but the text goes on
      subst hquote
      have hrest : rest ≠ [] := fun h => hclose rfl h
      simp [closesAtEnd_quote, hrest]
    by_cases hbackslash : c = '\\'
    · -- nothing is left to be escaped
      subst hbackslash
      have hrest : rest = [] := by
        cases rest with
        | nil => rfl
        | cons d rest => exact absurd rfl (hescape d rest rfl)
      subst hrest
      simp [not_closesAtEnd scan_plainLiteral_backslash]
    cases hline : isLineEnd c with
    | true => simp [not_closesAtEnd (scan_plainLiteral_lineEnd hline)]
    | false =>
      have hrest := ih (p + 1) (p + 1)
      rw [ClosesAtEnd] at hrest ⊢
      rw [scan_plainLiteral_other hquote hbackslash hline, escaped_cons hbackslash, ← hrest]
      simp [hquote, hbackslash]
  | case4 => simp [not_closesAtEnd scan_plainLiteral_end]

/-- One quote that is not the first of three opens a plain literal. -/
theorem openLiteral?_quote {body : List Char} (h : ¬['"', '"', '"'] <+: '"' :: body) (pos : Nat) :
    openLiteral? pos ('"' :: body) = some (plainLiteral pos, 1) := by
  have hthree : (List.replicate 3 '"').isPrefixOf ('"' :: body) = false := by
    rw [← Bool.not_eq_true, List.isPrefixOf_iff_prefix]
    exact h
  have hone : (List.replicate 1 '"').isPrefixOf ('"' :: body) = true := by simp
  have hhashes : (('"' :: body).takeWhile (· == '#')).length = 0 := rfl
  rw [openLiteral?_eq]
  simp only [hhashes, List.drop_zero]
  rw [if_neg (by rw [hthree]; decide), if_pos hone]

/-- Behind one quote the place after the literal is where the pass closes it. -/
theorem skipStringLiteral_quote {body : List Char} (h : ¬['"', '"', '"'] <+: '"' :: body) :
    (∃ c', skipStringLiteral (.start ('"' :: body)) = .ok c' ∧ c'.pos = body.length + 1) ↔
      ClosesAtEnd 0 0 ⟨1, body⟩ := by
  have hend : ∀ {c' : Cursor}, skipStringLiteral (.start ('"' :: body)) = .ok c' →
      (c'.pos = body.length + 1 ↔ c'.rest = []) := by
    intro c' hskip
    have hlength := ((skipStringLiteral_shorter hskip).1.at_of (start_at _)).pos_add_length
    rw [List.length_cons] at hlength
    rw [← List.length_eq_zero_iff]
    omega
  have hskip : skipStringLiteral (.start ('"' :: body))
      = (scan [.literal (plainLiteral 0)] 0 ⟨1, body⟩).map Prod.snd := by
    rw [skipStringLiteral, start, openLiteral?_quote h]
    dsimp only
    rw [advance_one_cons]
    cases scan [.literal (plainLiteral 0)] 0 ⟨1, body⟩ <;> rfl
  constructor
  · intro hsome
    obtain ⟨c', hok, hpos⟩ := hsome
    have hrest := (hend hok).1 hpos
    rw [hskip] at hok
    cases hscan : scan [.literal (plainLiteral 0)] 0 ⟨1, body⟩ with
    | error e => simp [hscan, Except.map] at hok
    | ok r =>
      rw [hscan] at hok
      obtain rfl := Except.ok.inj hok
      exact ⟨r.1, r.2, hscan, hrest⟩
  · intro hcloses
    obtain ⟨mark, c', hscan, hrest⟩ := hcloses
    have hok : skipStringLiteral (.start ('"' :: body)) = .ok c' := by
      rw [hskip, hscan]
      rfl
    exact ⟨c', hok, (hend hok).2 hrest⟩

/-- **A simple literal is one that the pass over literals takes whole.** For a text that begins with
one quote, it is simple exactly if the pass ends with the text and no backslash in it stands before
a parenthesis or a line end. A text that begins with three quotes or a hash mark is never simple. -/
theorem isSimpleLiteral_agrees (text : String) :
    (text.toList.head? = some '"' → ¬['"', '"', '"'] <+: text.toList →
      (isSimpleLiteral text = true ↔
        (∃ c', skipStringLiteral (.start text.toList) = .ok c' ∧ c'.pos = text.toList.length) ∧
          ∀ c ∈ escaped text.toList, c ≠ '(' ∧ c ≠ '\n' ∧ c ≠ '\r')) ∧
      (['"', '"', '"'] <+: text.toList ∨ text.toList.head? = some '#' →
        isSimpleLiteral text = false) := by
  constructor
  · intro hquote hthree
    obtain ⟨body, hbody⟩ := List.head?_eq_some_iff.1 hquote
    rw [hbody] at hthree
    rw [isSimpleLiteral, hbody, escaped_cons (by decide), List.length_cons,
      skipStringLiteral_quote hthree]
    refine (closesSimply_iff_closesAtEnd body 0 0 1).trans ?_
    simp [isLineEnd]
  · intro h
    rw [isSimpleLiteral]
    rcases h with ⟨body, hbody⟩ | hhash
    · rw [← hbody]
      exact Bool.eq_false_iff.2 fun hcloses => absurd (closesSimply_quote hcloses) (by simp)
    · obtain ⟨body, hbody⟩ := List.head?_eq_some_iff.1 hhash
      rw [hbody]
      rfl

/-- A quote behind a backslash, and one behind two. -/
def backslashes : String := "\"\\\"a\\\\\""

theorem isSimpleLiteral_agrees_backslashes :
    isSimpleLiteral backslashes = true ∧
      (∃ c', skipStringLiteral (.start backslashes.toList) = .ok c' ∧ c'.pos = 7) ∧
      (∀ c ∈ escaped backslashes.toList, c ≠ '(' ∧ c ≠ '\n' ∧ c ≠ '\r') ∧
      isSimpleLiteral "\"\"\"a\"\"\"" = false := by
  have hsimple : isSimpleLiteral backslashes = true := by decide +kernel
  obtain ⟨hquote, -⟩ := isSimpleLiteral_agrees backslashes
  obtain ⟨hends, hescaped⟩ := (hquote (by decide +kernel) (by decide +kernel)).1 hsimple
  obtain ⟨-, hthree⟩ := isSimpleLiteral_agrees "\"\"\"a\"\"\""
  exact ⟨hsimple, hends, hescaped, hthree (.inl (by decide +kernel))⟩

end LocalizedKeys.Swift
