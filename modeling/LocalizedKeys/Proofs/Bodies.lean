import LocalizedKeys.Proofs.Pieces

/-!
# What stands between quotes

The body of a simple literal is made of plain characters and escapes (`Body`). Bodies can be put
behind one another, and the only other way for a text in two parts to be a body is that an escape
has its backslash in the first part and its character in the second (`Body.append_iff`).

Replacing escapes is done on a body from left to right. Where every backslash begins an escape that
stands for something (`WellEscaped`), it can be done on the parts of a body one by one.
-/

namespace LocalizedKeys.Swift

open Text

/-! ## Bodies -/

/-- The character stands for itself between quotes. -/
def IsVerbatim (c : Char) : Prop := c ≠ '"' ∧ c ≠ '\\' ∧ isLineEnd c = false

instance : DecidablePred IsVerbatim := fun c =>
  inferInstanceAs (Decidable (c ≠ '"' ∧ c ≠ '\\' ∧ isLineEnd c = false))

/-- Plain characters and escapes, none of which is an interpolation or holds a line end. -/
inductive Body : List Char → Prop
  | nil : Body []
  | plain {c : Char} {r : List Char} : IsVerbatim c → Body r → Body (c :: r)
  | escape {c : Char} {r : List Char} :
      c ≠ '(' → isLineEnd c = false → Body r → Body ('\\' :: c :: r)

theorem isVerbatim_of_ne {c : Char} (hquote : c ≠ '"') (hbackslash : c ≠ '\\') (hn : c ≠ '\n')
    (hr : c ≠ '\r') : IsVerbatim c :=
  ⟨hquote, hbackslash, by simp [isLineEnd, hn, hr]⟩

theorem closesSimply_plain {c : Char} (h : IsVerbatim c) (r : List Char) :
    closesSimply (c :: r) = closesSimply r := by
  obtain ⟨hquote, hbackslash, hend⟩ := h
  rw [closesSimply]
  · simp [hquote, hbackslash, hend]
  · exact fun _ _ h => absurd h hbackslash
  · exact fun h => absurd h hquote

theorem closesSimply_iff {cs : List Char} :
    closesSimply cs = true ↔ ∃ b, cs = b ++ ['"'] ∧ Body b := by
  constructor
  · intro h
    fun_induction closesSimply cs with
    | case1 c rest ih =>
      simp only [Bool.and_eq_true, bne_iff_ne, ne_eq, Bool.not_eq_true'] at h
      obtain ⟨b, rfl, hb⟩ := ih h.2
      exact ⟨_, rfl, .escape h.1.1 h.1.2 hb⟩
    | case2 => exact ⟨[], rfl, .nil⟩
    | case3 c rest _ _ ih =>
      simp only [Bool.and_eq_true, bne_iff_ne, ne_eq, Bool.not_eq_true'] at h
      obtain ⟨b, rfl, hb⟩ := ih h.2
      exact ⟨_, rfl, .plain ⟨h.1.1.1, h.1.1.2, h.1.2⟩ hb⟩
    | case4 => simp at h
  · rintro ⟨b, rfl, hb⟩
    induction hb with
    | nil => rfl
    | plain hc _ ih => rw [List.cons_append, closesSimply_plain hc, ih]
    | escape hopen hend _ ih =>
      simp only [List.cons_append, closesSimply, ih]
      simp [hopen, hend]

theorem isSimpleLiteral_iff {text : String} :
    isSimpleLiteral text = true ↔ ∃ b, text.toList = '"' :: (b ++ ['"']) ∧ Body b := by
  rw [isSimple_iff, IsSimple]
  constructor
  · rintro ⟨rest, htext, hrest⟩
    obtain ⟨b, rfl, hb⟩ := closesSimply_iff.1 hrest
    exact ⟨b, htext, hb⟩
  · rintro ⟨b, htext, hb⟩
    exact ⟨_, htext, closesSimply_iff.2 ⟨b, rfl, hb⟩⟩

theorem Body.append {b b' : List Char} (h : Body b) (h' : Body b') : Body (b ++ b') := by
  induction h with
  | nil => exact h'
  | plain hc _ ih => exact .plain hc ih
  | escape hopen hend _ ih => exact .escape hopen hend ih

theorem Body.of_verbatim {b : List Char} (h : ∀ c ∈ b, IsVerbatim c) : Body b := by
  induction b with
  | nil => exact .nil
  | cons c b ih =>
    obtain ⟨hc, hrest⟩ := List.forall_mem_cons.1 h
    exact .plain hc (ih hrest)

/-- The first text ends in a backslash that escapes the first character of the second. -/
def Straddled (x y : List Char) : Prop :=
  ∃ b c z, x = b ++ ['\\'] ∧ y = c :: z ∧ Body b ∧ Body ('\\' :: c :: z)

/-- At a seam either both sides are bodies, or one escape lies across it. -/
theorem Body.append_iff {x y : List Char} :
    Body (x ++ y) ↔ (Body x ∧ Body y) ∨ Straddled x y := by
  constructor
  · intro h
    generalize htext : x ++ y = text at h
    -- on the whole body: the seam is at its front, behind a character, or inside an escape
    induction h generalizing x with
    | nil =>
      obtain ⟨rfl, rfl⟩ := List.append_eq_nil_iff.1 htext
      exact .inl ⟨.nil, .nil⟩
    | @plain c r hc hr ih =>
      cases x with
      | nil =>
        subst htext
        exact .inl ⟨.nil, .plain hc hr⟩
      | cons d x =>
        obtain ⟨rfl, hrest⟩ := List.cons.inj htext
        rcases ih hrest with ⟨hx, hy⟩ | ⟨b, c, z, rfl, rfl, hb, hz⟩
        · exact .inl ⟨.plain hc hx, hy⟩
        · exact .inr ⟨_ :: b, c, z, rfl, rfl, .plain hc hb, hz⟩
    | @escape c r hopen hend hr ih =>
      cases x with
      | nil =>
        subst htext
        exact .inl ⟨.nil, .escape hopen hend hr⟩
      | cons d x =>
        obtain ⟨rfl, hrest⟩ := List.cons.inj htext
        cases x with
        | nil => exact .inr ⟨[], c, r, rfl, hrest, .nil, .escape hopen hend hr⟩
        | cons e x =>
          obtain ⟨rfl, htail⟩ := List.cons.inj hrest
          rcases ih htail with ⟨hx, hy⟩ | ⟨b, c, z, rfl, rfl, hb, hz⟩
          · exact .inl ⟨.escape hopen hend hx, hy⟩
          · exact .inr ⟨_ :: _ :: b, c, z, rfl, rfl, .escape hopen hend hb, hz⟩
  · rintro (⟨hx, hy⟩ | ⟨b, c, z, rfl, rfl, hb, hz⟩)
    · exact hx.append hy
    · rw [List.append_assoc]
      exact hb.append hz

/-! ## Quotes -/

theorem isSimpleLiteral_quote_iff {text : String} :
    isSimpleLiteral (quote text) = true ↔ Body text.toList := by
  have htext : (quote text).toList = '"' :: (text.toList ++ ['"']) := by simp [quote]
  rw [isSimpleLiteral_iff, htext]
  constructor
  · rintro ⟨b, heq, hb⟩
    rwa [List.append_cancel_right (List.cons.inj heq).2]
  · exact fun h => ⟨_, rfl, h⟩

theorem unquote_of_toList {text : String} {b : List Char}
    (h : text.toList = '"' :: (b ++ ['"'])) : unquote text = String.ofList b := by
  simp [unquote, h]

/-! ## Values -/

theorem unescape_nil : unescape [] = [] := by rw [unescape]

theorem unescape_plain {c : Char} (h : c ≠ '\\') (r : List Char) :
    unescape (c :: r) = c :: unescape r := by
  rw [unescape.eq_def]
  simp only [if_neg h]

theorem unescape_single {c value : Char} (h : escapeValue? c = some value) (r : List Char) :
    unescape ('\\' :: c :: r) = value :: unescape r := by
  have hline : c ≠ '\n' := by
    rintro rfl
    simp [escapeValue?] at h
  rw [unescape.eq_def]
  simp [hline, h]

/-- An escape that is not known keeps its backslash. -/
theorem unescape_unknown {c : Char} (h : escapeValue? c = none) (hline : c ≠ '\n') (hu : c ≠ 'u')
    (r : List Char) : unescape ('\\' :: c :: r) = '\\' :: unescape (c :: r) := by
  have hunicode : unicodeEscape? (c :: r) = none := by
    unfold unicodeEscape?
    split
    · rename_i heq
      exact absurd (List.cons.inj heq).1 hu
    · rfl
  rw [unescape.eq_def]
  simp [hline, h, hunicode]

theorem literalValue_body {b : List Char} (h : Body b) :
    literalValue ('"' :: (b ++ ['"'])) = unescape b := by
  have hthree : betweenQuotes? 3 ('"' :: (b ++ ['"'])) = none := by
    have hfront : ((List.replicate 3 '"').isPrefixOf ('"' :: (b ++ ['"']))) = false := by
      cases h with
      | nil => rfl
      | plain hc => simp [List.replicate, List.isPrefixOf, Ne.symm hc.1]
      | escape => simp [List.replicate, List.isPrefixOf]
    rw [betweenQuotes?, hfront]
    rfl
  have hone : betweenQuotes? 1 ('"' :: (b ++ ['"'])) = some b := by
    have hsuffix : (['"'].isSuffixOf ('"' :: (b ++ ['"']))) = true := by
      rw [List.isSuffixOf_iff_suffix]
      exact ⟨'"' :: b, rfl⟩
    simp [betweenQuotes?, hsuffix]
  unfold literalValue
  simp [hthree, hone]

theorem decodeLiteral_of_toList {text : String} {b : List Char}
    (h : text.toList = '"' :: (b ++ ['"'])) (hb : Body b) :
    decodeLiteral text = String.ofList (unescape b) := by
  rw [decodeLiteral, h, literalValue_body hb]

/-! ## Well-escaped bodies -/

/-- A body in which every backslash begins an escape that is known, or one of a scalar. -/
inductive WellEscaped : List Char → Prop
  | nil : WellEscaped []
  | plain {c : Char} {r : List Char} : IsVerbatim c → WellEscaped r → WellEscaped (c :: r)
  | single {c : Char} {r : List Char} :
      (escapeValue? c).isSome = true → WellEscaped r → WellEscaped ('\\' :: c :: r)
  | scalar {digits r : List Char} :
      1 ≤ digits.length → digits.length ≤ 8 → (∀ c ∈ digits, (hexValue? c).isSome = true) →
      WellEscaped r → WellEscaped ('\\' :: 'u' :: '{' :: (digits ++ '}' :: r))

/-- What an escape of a scalar stands for; it stays as it is if there is no such scalar. -/
def scalarText (digits : List Char) : List Char :=
  if isScalar (hexNumber digits) then [Char.ofNat (hexNumber digits)]
  else '\\' :: 'u' :: '{' :: (digits ++ ['}'])

theorem unicodeEscape?_digits {digits : List Char} (hpos : 1 ≤ digits.length)
    (hle : digits.length ≤ 8) (hhex : ∀ c ∈ digits, (hexValue? c).isSome = true) (r : List Char) :
    unicodeEscape? ('u' :: '{' :: (digits ++ '}' :: r))
      = some (hexNumber digits, digits.length + 3) := by
  have htake : (digits ++ '}' :: r).takeWhile (fun c => (hexValue? c).isSome) = digits := by
    rw [List.takeWhile_append_of_pos hhex, List.takeWhile_cons_of_neg (by decide), List.append_nil]
  simp [unicodeEscape?, htake, hle, hpos]

theorem unescape_scalar {digits : List Char} (hpos : 1 ≤ digits.length)
    (hle : digits.length ≤ 8) (hhex : ∀ c ∈ digits, (hexValue? c).isSome = true) (r : List Char) :
    unescape ('\\' :: 'u' :: '{' :: (digits ++ '}' :: r)) = scalarText digits ++ unescape r := by
  have hsplit : 'u' :: '{' :: (digits ++ '}' :: r) = 'u' :: '{' :: (digits ++ ['}']) ++ r := by simp
  have hlength : digits.length + 3 = ('u' :: '{' :: (digits ++ ['}'])).length := by simp
  rw [unescape.eq_def]
  simp only [if_true, show ¬('u' = '\n') by decide, if_false,
    show escapeValue? 'u' = none by decide, unicodeEscape?_digits hpos hle hhex r]
  rw [hsplit, hlength, List.take_left, List.drop_left, scalarText]

theorem WellEscaped.body {b : List Char} (h : WellEscaped b) : Body b := by
  induction h with
  | nil => exact .nil
  | plain hc _ ih => exact .plain hc ih
  | @single c r hvalue _ ih =>
    have hne : ∀ d, escapeValue? d = none → c ≠ d := by
      rintro d hd rfl
      simp [hd] at hvalue
    have hend : isLineEnd c = false := by
      simp [isLineEnd, hne '\n' (by decide), hne '\r' (by decide)]
    exact .escape (hne '(' (by decide)) hend ih
  | @scalar digits r _ _ hhex _ ih =>
    have hdigits : Body digits := .of_verbatim fun c hc => by
      have hne : ∀ d, hexValue? d = none → c ≠ d := by
        rintro d hd rfl
        simpa [hd] using hhex c hc
      exact isVerbatim_of_ne (hne _ (by decide)) (hne _ (by decide)) (hne _ (by decide))
        (hne _ (by decide))
    have hopen : IsVerbatim '{' := by decide
    have hclose : IsVerbatim '}' := by decide
    exact .escape (by decide) rfl (.plain hopen (hdigits.append (.plain hclose ih)))

theorem WellEscaped.of_verbatim {b : List Char} (h : ∀ c ∈ b, IsVerbatim c) : WellEscaped b := by
  induction b with
  | nil => exact .nil
  | cons c b ih =>
    obtain ⟨hc, hrest⟩ := List.forall_mem_cons.1 h
    exact .plain hc (ih hrest)

theorem unescape_of_not_mem {b : List Char} (h : '\\' ∉ b) : unescape b = b := by
  induction b with
  | nil => exact unescape_nil
  | cons c b ih =>
    rw [unescape_plain (List.ne_of_not_mem_cons h).symm, ih (List.not_mem_of_not_mem_cons h)]

theorem unescape_of_verbatim {b : List Char} (h : ∀ c ∈ b, IsVerbatim c) : unescape b = b :=
  unescape_of_not_mem fun hmem => (h _ hmem).2.1 rfl

/-- The escapes of a well-escaped body can be replaced apart from what follows. -/
theorem WellEscaped.unescape_append {b : List Char} (h : WellEscaped b) (r : List Char) :
    unescape (b ++ r) = unescape b ++ unescape r := by
  -- not so for a mere body: what follows can complete a scalar that is begun in it
  induction h with
  | nil => rw [List.nil_append, unescape_nil, List.nil_append]
  | plain hc _ ih =>
    rw [List.cons_append, unescape_plain hc.2.1, unescape_plain hc.2.1, ih, List.cons_append]
  | single hvalue _ ih =>
    obtain ⟨value, hvalue⟩ := Option.isSome_iff_exists.1 hvalue
    simp only [List.cons_append, unescape_single hvalue, ih]
  | scalar hpos hle hhex _ ih =>
    simp only [List.cons_append, List.append_assoc, unescape_scalar hpos hle hhex, ih]

/-! ## Well-escaped literals -/

/-- A simple literal with a well-escaped body. -/
def IsWellEscaped (text : String) : Prop :=
  ∃ b, text.toList = '"' :: (b ++ ['"']) ∧ WellEscaped b

theorem IsWellEscaped.isSimpleLiteral {text : String} (h : IsWellEscaped text) :
    isSimpleLiteral text = true := by
  obtain ⟨b, htext, hb⟩ := h
  exact isSimpleLiteral_iff.2 ⟨b, htext, hb.body⟩

/-- Without its quotes a well-escaped literal is its body, and its value is that of the body. -/
theorem IsWellEscaped.unquote {text : String} (h : IsWellEscaped text) :
    WellEscaped (unquote text).toList ∧
      decodeLiteral text = String.ofList (unescape (Swift.unquote text).toList) := by
  obtain ⟨b, htext, hb⟩ := h
  rw [unquote_of_toList htext, String.toList_ofList]
  exact ⟨hb, decodeLiteral_of_toList htext hb.body⟩

theorem decodeLiteral_quote {text : String} (h : Body text.toList) :
    decodeLiteral (quote text) = String.ofList (unescape text.toList) :=
  decodeLiteral_of_toList (by simp [quote]) h

end LocalizedKeys.Swift
