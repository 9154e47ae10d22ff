import LocalizedKeys.Proofs.Indents
import LocalizedKeys.Proofs.ReadBack

/-!
# Generated members are read

The text of a member is passed from its keyword to its end as one declaration that is kept as text
(`IsStatic`): it is put together from characters without a meaning of their own, from groups in
brackets and from texts of expressions, and each of these leaves open what was open before
(`Crosses`). How much of it counts does not matter, since all of it is kept.

It stays such a text when it is indented, if the indentation fits (`IsStatic.indents`). So members
with blank lines between them are read one after the other (`spells_blocks`).
-/

namespace LocalizedKeys.Swift

open Text

variable {fs fs₁ fs₂ : List Frame} {f : Frame} {w w₁ w₂ r : List Char} {close : Char}

/-! ## Crossing a text -/

/-- In front of `r` the text is passed, whatever of it counts. -/
def Crosses (fs fs' : List Frame) (w r : List Char) : Prop := ∃ k, Passes fs w k fs' r

theorem Crosses.append (h₁ : Crosses fs fs₁ w₁ (w₂ ++ r)) (h₂ : Crosses fs₁ fs₂ w₂ r) :
    Crosses fs fs₂ (w₁ ++ w₂) r := by
  obtain ⟨k₁, h₁⟩ := h₁
  obtain ⟨k₂, h₂⟩ := h₂
  exact ⟨_, h₁.append h₂⟩

/-- Characters that mean nothing in code are crossed, white space or not. -/
theorem crosses_plain (hf : ∀ c ∈ w, f.Admits c) (hw : ∀ c ∈ w, isPlainChar c = true)
    (outer : List Frame) (r : List Char) : Crosses (f :: outer) (f :: outer) w r := by
  induction w with
  | nil => exact ⟨0, .nil⟩
  | cons c w ih =>
    rw [List.forall_mem_cons] at hf hw
    have hmove : f.move outer 0 c ([] ++ (w ++ r)) = .ok (.pass 0 (f :: outer) !isSpace c) :=
      Frame.move_plain hf.1 hw.1 outer 0 _
    have hfirst : Crosses (f :: outer) (f :: outer) [c] (w ++ r) := ⟨_, Passes.one hmove⟩
    exact hfirst.append (ih hf.2 hw.2)

/-- A bracket is opened in code. -/
theorem crosses_opening {c : Char} (hf : f.Admits c) (hclose : closingBracket? c = some close)
    (outer : List Frame) (r : List Char) :
    Crosses (f :: outer) (.bracket close :: f :: outer) [c] r := by
  have hbracket : c = '(' ∨ c = '[' ∨ c = '\x7b' := by
    unfold closingBracket? at hclose
    split at hclose
    · exact .inl ‹_›
    · split at hclose
      · exact .inr (.inl ‹_›)
      · split at hclose
        · exact .inr (.inr ‹_›)
        · simp at hclose
  have hother : isClosingBracket c = false := by rcases hbracket with rfl | rfl | rfl <;> rfl
  have hcode : codeMove (f :: outer) 0 c ([] ++ r)
      = .ok (.pass 0 (.bracket close :: f :: outer) true) := by
    have hslash : c ≠ '/' := by rcases hbracket with rfl | rfl | rfl <;> decide
    have hopens : opensLiteral c r = false := by rcases hbracket with rfl | rfl | rfl <;> rfl
    rw [List.nil_append, codeMove, if_neg (by simp [hopens]), if_neg fun h => hslash h.1,
      if_neg fun h => hslash h.1, hclose]
  have hmove : f.move outer 0 c ([] ++ r) = .ok (.pass 0 (.bracket close :: f :: outer) true) := by
    cases f with
    | expression stops =>
      have hstops : stops.contains c = false := by simpa [Frame.Admits] using hf
      rw [Frame.move, if_neg (by rw [hstops, hother]; decide), hcode]
    | bracket other => rw [Frame.move, if_neg hf, if_neg (by simp [hother]), hcode]
    | interpolation start => rw [Frame.move, if_neg hf, if_neg (by simp [hother]), hcode]
    | literal l => exact absurd hf id
  exact ⟨_, Passes.one hmove⟩

theorem crosses_closing (close : Char) (outer : List Frame) (r : List Char) :
    Crosses (.bracket close :: outer) outer [close] r := by
  have hmove : Frame.move (.bracket close) outer 0 close ([] ++ r) = .ok (.pass 0 outer true) := by
    rw [Frame.move, if_pos rfl]
  exact ⟨_, Passes.one hmove⟩

/-- What is crossed between parentheses is crossed with them. -/
theorem crosses_group {outer : List Frame} (hf : f.Admits '(')
    (h : ∀ r, Crosses (.bracket ')' :: f :: outer) (.bracket ')' :: f :: outer) w (')' :: r))
    (r : List Char) : Crosses (f :: outer) (f :: outer) ('(' :: (w ++ [')'])) r := by
  have hinside := (h r).append (crosses_closing ')' (f :: outer) r)
  exact (crosses_opening hf rfl outer _).append hinside

/-! ## Between brackets -/

section

variable (hclose : isClosingBracket close = true) (outer : List Frame)

include hclose

theorem crosses_code (hw : ∀ c ∈ w, isPlainChar c = true) (r : List Char) :
    Crosses (.bracket close :: outer) (.bracket close :: outer) w r := by
  refine crosses_plain (fun c hc => ?_) hw outer r
  rintro rfl
  have := hw c hc
  simp [isPlainChar, hclose] at this

/-- The text of an expression is crossed in front of anything that it cannot go on with. -/
theorem IsExpressionText.crosses (h : IsExpressionText w) (hr : Firm r) :
    Crosses (.bracket close :: outer) (.bracket close :: outer) w r := by
  have hpasses : Passes (.bracket close :: outer) w w.length (.bracket close :: outer) [] :=
    @Passes.rebase _ _ (Frame.takesCode_bracket hclose) outer [] [] _ _ _ h.passes
  exact ⟨_, Passes.seam (s := []) hpasses (.inr ⟨by simp [Quiet], hr⟩) (.inr (.inl rfl))⟩

/-- A list of texts is crossed if each of them is. -/
theorem crosses_join {texts : List (List Char)}
    (h : ∀ text ∈ texts, ∀ r, Firm r →
      Crosses (.bracket close :: outer) (.bracket close :: outer) text r) (hr : Firm r) :
    Crosses (.bracket close :: outer) (.bracket close :: outer) (join commaSpace texts) r := by
  induction texts with
  | nil => exact ⟨0, .nil⟩
  | cons text texts ih =>
    rw [List.forall_mem_cons] at h
    by_cases hne : texts = []
    · subst hne
      exact h.1 r hr
    · rw [join_cons _ _ hne, List.append_assoc]
      refine .append (h.1 _ (.cons (by decide) _)) (.append ?_ (ih h.2))
      exact crosses_code hclose outer (by decide) _

end

/-! ## Declarations that are kept as text -/

/-- The frame in which a declaration that is kept as text is passed. -/
abbrev lineFrame : Frame := .expression [';', '\n', '\r']

/-- A text that is read as one declaration with the modifier `static`, and kept as it is. -/
structure IsStatic (text : List Char) : Prop where
  body : ∃ word ∈ ["let", "func"], ∃ tail, text = "static ".toList ++ (word.toList ++ ' ' :: tail) ∧
    ∀ r, Crosses [lineFrame] [lineFrame] (word.toList ++ ' ' :: tail) ('\n' :: r)
  last : ∀ c ∈ text.getLast?, isSpace c = false

theorem plainName_static : ∀ word ∈ ["let", "func"], PlainName word.toList := by decide

variable {text text' indent : List Char}

theorem IsStatic.begins (h : IsStatic text) : BeginsToken text := by
  obtain ⟨word, -, tail, rfl, -⟩ := h.body
  exact ⟨'s', _, rfl, .inl (by decide)⟩

/-- It stays one when it is indented. -/
theorem IsStatic.indents (h : IsStatic text) (hfits : IndentFits indent text)
    (hindents : Indents indent text text') : IsStatic text' := by
  obtain ⟨word, hword, tail, htext, hcrosses⟩ := h.body
  have hlined : Lined [lineFrame] :=
    ⟨closes_expression, fun stops hmem => by
      obtain rfl := Frame.expression.inj (List.mem_singleton.1 hmem)
      decide⟩
  refine ⟨?_, fun c hc => h.last c ?_⟩
  · subst htext
    obtain ⟨static, body', rfl, hstatic, hbody⟩ := hindents.split
    obtain rfl := hstatic.eq_of_noFeed (by decide)
    have hspace : word.toList ++ ' ' :: tail = (word.toList ++ [' ']) ++ tail := by simp
    obtain ⟨front, tail', rfl, hfront, -⟩ := (hspace ▸ hbody).split
    have hfeed : ∀ word ∈ ["let", "func"], '\n' ∉ word.toList ++ [' '] := by decide
    obtain rfl := hfront.eq_of_noFeed (hfeed word hword)
    rw [List.append_assoc, List.singleton_append] at hbody ⊢
    refine ⟨word, hword, tail', rfl, fun r => ?_⟩
    obtain ⟨k, hk⟩ := hcrosses r
    exact hk.indents hlined (hfits.of_infix (List.suffix_append _ _).isInfix) hbody
  · refine (hindents.getLast?_eq fun hlast => ?_) ▸ hc
    exact absurd (h.last _ hlast) (by decide)

theorem IsStatic.trimmed (h : IsStatic text) : trim text = text := by
  refine trim_eq (fun c hc => ?_) h.last
  obtain ⟨d, rest, rfl, hd⟩ := h.begins
  obtain rfl := Option.some.inj hc
  rcases hd with hd | rfl
  · exact (isPlainChar_of_isNameChar hd).2
  · decide

section Static

variable {word : String} (hword : word ∈ ["let", "func"])

include hword

theorem readName?_static (p : Nat) (cs : List Char) :
    readName? ⟨p, word.toList ++ ' ' :: cs⟩
      = some (word, ⟨p + word.toList.length, ' ' :: cs⟩) := by
  rw [readName?_append (.inl (plainName_static word hword)) (.cons _ (by decide)),
    String.ofList_toList]

theorem lead_static (p : Nat) (cs : List Char) : lead ⟨p, word.toList ++ ' ' :: cs⟩ = .other := by
  simp only [lead, readName?_static hword]
  simp only [List.mem_cons, List.not_mem_nil, or_false] at hword
  rcases hword with rfl | rfl <;> rfl

theorem readModifiers_static (p : Nat) (cs : List Char) :
    readModifiers ⟨p, "static ".toList ++ (word.toList ++ ' ' :: cs)⟩
      = .ok (["static"], ⟨p + "static ".toList.length, word.toList ++ ' ' :: cs⟩) := by
  have hno : ∀ c, isModifier word c = .ok false := by
    intro c
    simp only [List.mem_cons, List.not_mem_nil, or_false] at hword
    rcases hword with rfl | rfl <;> rfl
  have hbegins : BeginsToken (word.toList ++ ' ' :: cs) :=
    (IsName.begins (.inl (plainName_static word hword))).append _
  obtain ⟨q, hmodifiers⟩ := @readModifiers_printed ["static"] (by decide) _ hbegins
    (fun q => readModifiers_nil (readName?_static hword q cs) (hno _)) p
  obtain ⟨u, hrest, hpos⟩ := reaches_readModifiers hmodifiers
  rw [← List.append_cancel_right hrest] at hpos
  obtain rfl : q = p + "static ".toList.length := hpos
  exact hmodifiers

end Static

/-- It is read up to the end of its line. -/
theorem IsStatic.spellsLeaf (h : IsStatic text) (r : List Char) :
    SpellsLeaf (text ++ '\n' :: r) (.other (String.ofList text) [] ["static"]) ('\n' :: r) := by
  have htrim := h.trimmed
  obtain ⟨word, hword, tail, rfl, hcrosses⟩ := h.body
  intro p
  obtain ⟨k, hpasses⟩ := hcrosses r
  have hends : EndsExpression [';', '\n', '\r'] ('\n' :: r) := by
    intro ch hch
    obtain rfl := Option.some.inj hch
    rfl
  have hscan := scanExpression_text hpasses hends (p + "static ".toList.length)
  have hmodifiers := readModifiers_static hword p (tail ++ '\n' :: r)
  generalize htext : "static ".toList ++ (word.toList ++ ' ' :: tail) = text at htrim ⊢
  have hsource : "static ".toList ++ (word.toList ++ ' ' :: (tail ++ '\n' :: r))
      = text ++ '\n' :: r := by
    rw [← htext]
    simp
  have hstop : p + "static ".toList.length + (word.toList ++ ' ' :: tail).length
      = p + text.length := by
    have hlength := congrArg List.length htext
    rw [List.length_append] at hlength
    omega
  rw [List.append_assoc, List.cons_append, hstop] at hscan
  rw [hsource] at hmodifiers
  refine ⟨_, _, .other (readAttributes_nil ?_) hmodifiers (lead_static hword _ _)
    (readOther_run hscan ?_), ?_, rfl⟩
  · simp [Cursor.next?, ← htext]
  · have hne : text.length ≠ 0 := by simp [← htext]
    simpa using hne
  · have hslice : Cursor.slice ⟨p, text ++ '\n' :: r⟩ (p + text.length) = text := by
      rw [Cursor.slice, Nat.add_sub_cancel_left, List.take_left]
    rw [hslice, htrim]
    rfl

end LocalizedKeys.Swift

namespace LocalizedKeys.Expansion

open Swift Text Format

variable {mode : Mode} {l : Lookup} {m : Member} {indent text r : List Char}
  {texts : List (List Char)} {f : Frame}

/-! ## Generated members -/

/-- The name of a member was read as one, and so were the texts in its lookup. -/
structure Member.IsWellFormed (m : Member) : Prop where
  name : IsName m.name.toList
  lookup : m.lookup.IsWellFormed

/-- What is passed to a lookup is the text of an expression, and its labels are names. -/
theorem Lookup.IsWellFormed.callArguments (h : l.IsWellFormed) (mode : Mode) :
    ∀ a ∈ l.callArguments mode, (∀ label ∈ a.1, ∀ c ∈ label.toList, isPlainChar c = true) ∧
      IsExpressionText a.2.toList := by
  intro a ha
  have hlabel : ∀ label ∈ ["localized", "defaultValue", "table", "bundle", "comment", "tableName",
      "value"], ∀ c ∈ label.toList, isPlainChar c = true := by decide
  have hcases : (a.1 = none ∨ ∃ label ∈ ["localized", "defaultValue", "table", "bundle", "comment",
      "tableName", "value"], a.1 = some label) ∧
      (a.2 = l.key ∨ a.2 = l.defaultValue ∨ a.2 = l.table ∨ a.2 = l.bundle ∨ a.2 = l.comment) := by
    cases mode with
    | legacy =>
      simp only [Lookup.callArguments, List.mem_cons, List.not_mem_nil, or_false] at ha
      rcases ha with rfl | rfl | rfl | rfl | rfl <;> simp
    | current =>
      simp only [Lookup.callArguments, List.mem_append, List.mem_cons, List.not_mem_nil, or_false,
        List.mem_ite_nil_left] at ha
      rcases ha with (((rfl | rfl) | ⟨-, rfl⟩) | ⟨-, rfl⟩) | ⟨-, rfl⟩ <;> simp
  refine ⟨fun label hsome => ?_, ?_⟩
  · rcases hcases.1 with hnone | ⟨other, hmem, hother⟩
    · simp [hnone] at hsome
    · obtain rfl := Option.some.inj (hother.symm.trans hsome)
      exact hlabel other hmem
  · rcases hcases.2 with heq | heq | heq | heq | heq <;> rw [heq]
    · exact (isSimple_iff.1 h.key).isExpressionText
    · exact h.defaultValue
    · exact h.table
    · exact h.bundle
    · exact h.comment

/-- The call of a lookup is crossed in code. -/
theorem Lookup.IsWellFormed.crosses (h : l.IsWellFormed)
    (hf : ∀ c ∈ (Lookup.callee mode).toList ++ ['('], f.Admits c) (outer : List Frame)
    (r : List Char) :
    Crosses (f :: outer) (f :: outer) (l.render mode).toList r := by
  rw [List.forall_mem_append] at hf
  have hcallee : ∀ c ∈ (Lookup.callee mode).toList, isPlainChar c = true := by
    cases mode <;> decide
  rw [Lookup.toList_render]
  refine .append (crosses_plain hf.1 hcallee outer _)
    (crosses_group (hf.2 '(' (List.mem_singleton_self _)) (fun r => ?_) r)
  refine crosses_join rfl _ ?_ (.cons (by decide) _)
  intro text htext r hr
  obtain ⟨a, ha, rfl⟩ := List.mem_map.1 htext
  obtain ⟨hlabel, hexpression⟩ := h.callArguments mode a ha
  obtain ⟨label, expression⟩ := a
  have hcrosses : Crosses (.bracket ')' :: f :: outer) (.bracket ')' :: f :: outer)
      expression.toList r := hexpression.crosses rfl _ hr
  cases label with
  | none => exact hcrosses
  | some label =>
    have hplain : ∀ c ∈ label.toList ++ [':', ' '], isPlainChar c = true := by
      rw [List.forall_mem_append]
      exact ⟨hlabel label rfl, by decide⟩
    have := Crosses.append (crosses_code rfl (f :: outer) hplain _) hcrosses
    simpa [Lookup.printed, printArgument] using this

theorem isPlainChar_of_isDigit {c : Char} (h : c.isDigit = true) : isPlainChar c = true := by
  have hle : c.toNat ≤ 57 := by
    simp only [Char.isDigit, Bool.and_eq_true, decide_eq_true_eq] at h
    exact UInt32.le_iff_toNat_le.1 h.2
  have hnumber : isNumber c = true := isNumber_of_isDigit h (by omega)
  exact (isPlainChar_of_isNamePart (by simp [isNamePart, hnumber])).1

theorem isPlainChar_parameterName (n : Nat) :
    ∀ name ∈ Member.parameterNames n, ∀ c ∈ name.toList, isPlainChar c = true := by
  intro name hname c hc
  obtain ⟨i, -, rfl⟩ := List.mem_map.1 hname
  have hname : ("arg".toList ++ Nat.toDigits 10 (i + 1)) = (s!"arg{i + 1}").toList := by
    simp [Nat.repr, toString]
  rw [← hname, List.mem_append] at hc
  rcases hc with hc | hc
  · revert c
    decide
  · exact isPlainChar_of_isDigit (Nat.isDigit_of_mem_toDigits (by decide) (by decide) hc)

theorem toList_intercalate_comma (texts : List String) :
    (", ".intercalate texts).toList = join commaSpace (texts.map String.toList) := by
  rw [String.toList_intercalate, intercalate_eq_join]
  rfl

theorem isPlainChar_typeName (type : ParamType) : ∀ c ∈ type.name.toList, isPlainChar c = true := by
  cases type <;> decide

/-- The parameters of a function are crossed between their parentheses. -/
theorem crosses_signature (parameters : List ParamType) (outer : List Frame) (r : List Char) :
    Crosses (.bracket ')' :: outer) (.bracket ')' :: outer)
      (Member.signature parameters).toList (')' :: r) := by
  rw [Member.signature, toList_intercalate_comma]
  refine crosses_join rfl outer (fun text htext r _ => crosses_code rfl outer ?_ r)
    (.cons (by decide) r)
  simp only [List.mem_map] at htext
  obtain ⟨_, ⟨⟨name, type⟩, hmem, rfl⟩, rfl⟩ := htext
  simp only [String.toList_append, List.forall_mem_append]
  exact ⟨⟨⟨by decide, isPlainChar_parameterName _ name (List.of_mem_zip hmem).1⟩, by decide⟩,
    isPlainChar_typeName type⟩

/-- The arguments of the call that formats them are, too. -/
theorem crosses_formatted (n : Nat) (outer : List Frame) (r : List Char) :
    Crosses (.bracket ')' :: outer) (.bracket ')' :: outer)
      ("format: " ++ ", ".intercalate ("temp" :: Member.parameterNames n)).toList (')' :: r) := by
  rw [String.toList_append, toList_intercalate_comma]
  refine .append (crosses_code rfl outer (by decide) _)
    (crosses_join rfl outer (fun text htext r _ => crosses_code rfl outer ?_ r)
      (.cons (by decide) r))
  obtain ⟨name, hname, rfl⟩ := List.mem_map.1 htext
  rcases List.mem_cons.1 hname with rfl | hname
  · decide
  · exact isPlainChar_parameterName n name hname

/-- A declaration up to its name, and what stands behind the name. -/
theorem crosses_named {name : String} (hname : IsName name.toList) {front behind : List Char}
    (hfront : ∀ c ∈ front ++ behind, isPlainChar c = true ∧ c ∉ [';', '\n', '\r'])
    (r : List Char) : Crosses [lineFrame] [lineFrame] (front ++ name.toList ++ behind) r := by
  have hall : ∀ c ∈ front ++ name.toList ++ behind,
      isPlainChar c = true ∧ c ∉ [';', '\n', '\r'] := by
    intro c hc
    simp only [List.mem_append] at hc hfront
    rcases hc with (hc | hc) | hc
    · exact hfront c (.inl hc)
    · have hpart := hname.all c hc
      have hfits : FitStops [';', '\n', '\r'] := fitStops_of_all (by decide)
      exact ⟨(isPlainChar_of_isNameChar hpart).1, hfits.2 c hpart⟩
    · exact hfront c (.inr hc)
  exact crosses_plain (f := lineFrame) (fun c hc => (hall c hc).2) (fun c hc => (hall c hc).1) [] r

theorem isStatic_constant {name : String} (hname : IsName name.toList) (hlookup : l.IsWellFormed)
    (mode : Mode) (unit : String) :
    IsStatic ((Member.constant name l).render mode unit).toList := by
  have htext : ((Member.constant name l).render mode unit).toList = "static ".toList
      ++ ("let".toList ++ ' ' :: (name.toList ++ " = ".toList ++ (l.render mode).toList)) := by
    simp [Member.render, Member.renderLines]
  refine ⟨⟨"let", by decide, _, htext, fun r => ?_⟩, ?_⟩
  · have hdeclared : Crosses [lineFrame] [lineFrame]
        ("let ".toList ++ name.toList ++ " = ".toList) ((l.render mode).toList ++ '\n' :: r) :=
      crosses_named hname (by decide) _
    have hcall : Crosses [lineFrame] [lineFrame] (l.render mode).toList ('\n' :: r) :=
      hlookup.crosses (by cases mode <;> decide) [] _
    simpa using hdeclared.append hcall
  · rw [htext, Lookup.toList_render]
    simp only [← List.cons_append, ← List.append_assoc, List.getLast?_concat]
    simp [isSpace]

/-- A function is crossed up to the brace at its end. -/
theorem crosses_function {name : String} (hname : IsName name.toList) (hlookup : l.IsWellFormed)
    (mode : Mode) {unit : String} (hunit : ∀ ch ∈ unit.toList, isBlank ch = true)
    (parameters : List ParamType) :
    ∃ body, ((Member.function name l parameters).render mode unit).toList
        = "static ".toList ++ ("func".toList ++ ' ' :: (body ++ ['\x7d'])) ∧
      ∀ r, Crosses [lineFrame] [.bracket '\x7d', lineFrame] ("func".toList ++ ' ' :: body) r := by
  have hline : ∀ {line : List Char}, (∀ c ∈ line, isPlainChar c = true) → ∀ r,
      Crosses [.bracket '\x7d', lineFrame] [.bracket '\x7d', lineFrame]
        ('\n' :: (unit.toList ++ line)) r := by
    intro line hline r
    refine crosses_code rfl [lineFrame] ?_ r
    rw [List.forall_mem_cons, List.forall_mem_append]
    exact ⟨by decide, fun c hc => isPlainChar_of_isSpace (isSpace_of_isBlank (hunit c hc)), hline⟩
  have hdeclared : ∀ r, Crosses [lineFrame] [lineFrame] ("func ".toList ++ name.toList ++ []) r :=
    crosses_named hname (by decide)
  have hsignature : ∀ r, Crosses [lineFrame] [lineFrame]
      ('(' :: ((Member.signature parameters).toList ++ [')'])) r :=
    crosses_group (by decide) (crosses_signature parameters _)
  have hresult : ∀ r, Crosses [lineFrame] [lineFrame] " -> String ".toList r :=
    crosses_plain (by decide) (by decide) []
  have hbrace : ∀ r, Crosses [lineFrame] [.bracket '\x7d', lineFrame] ['\x7b'] r :=
    crosses_opening (by decide) rfl []
  have hcall : ∀ r, Crosses [.bracket '\x7d', lineFrame] [.bracket '\x7d', lineFrame]
      (l.render mode).toList r := hlookup.crosses (by cases mode <;> decide) _
  have hformatted : ∀ r, Crosses [.bracket '\x7d', lineFrame] [.bracket '\x7d', lineFrame]
      ('(' :: (("format: " ++ ", ".intercalate ("temp" :: Member.parameterNames
        parameters.length)).toList ++ [')'])) r :=
    crosses_group (by decide) (crosses_formatted parameters.length _)
  have hend : ∀ r, Crosses [.bracket '\x7d', lineFrame] [.bracket '\x7d', lineFrame] ['\n'] r :=
    crosses_code rfl [lineFrame] (by decide)
  have hall := fun r => (hdeclared _).append <| (hsignature _).append <| (hresult _).append <|
    (hbrace _).append <| (@hline "let temp = ".toList (by decide) _).append <| (hcall _).append <|
    (@hline "return String".toList (by decide) _).append <| (hformatted _).append (hend r)
  simp only [List.append_nil, List.append_assoc] at hall
  refine ⟨_, ?_, hall⟩
  simp [Member.render, Member.renderLines]

theorem isStatic_function {name : String} (hname : IsName name.toList) (hlookup : l.IsWellFormed)
    (mode : Mode) {unit : String} (hunit : ∀ ch ∈ unit.toList, isBlank ch = true)
    (parameters : List ParamType) :
    IsStatic ((Member.function name l parameters).render mode unit).toList := by
  obtain ⟨body, htext, hcrosses⟩ := crosses_function hname hlookup mode hunit parameters
  refine ⟨⟨"func", by decide, _, htext, fun r => ?_⟩, ?_⟩
  · exact (hcrosses _).append (crosses_closing '\x7d' [lineFrame] ('\n' :: r))
  · rw [htext]
    simp only [← List.cons_append, ← List.append_assoc, List.getLast?_concat]
    simp [isSpace]

/-- **The text of a member is that of one declaration.** -/
theorem Member.IsWellFormed.isStatic (h : m.IsWellFormed) (mode : Mode) {unit : String}
    (hunit : ∀ ch ∈ unit.toList, isBlank ch = true) : IsStatic (m.render mode unit).toList := by
  cases m with
  | constant name lookup => exact isStatic_constant h.name h.lookup mode unit
  | function name lookup parameters => exact isStatic_function h.name h.lookup mode hunit parameters

/-! ## Indented blocks -/

/-- What a text is read as where it has been indented. -/
def textOutline (indent text : List Char) : Outline :=
  .other (String.ofList (indentLines indent text)) [] ["static"]

theorem indentBlock_of_isStatic (h : IsStatic text) :
    indentBlock indent text = indent ++ indentLines indent text := by
  have hlast : text.getLast? ≠ some '\n' := fun hlast => absurd (h.last _ hlast) (by decide)
  obtain ⟨c, rest, rfl, hc⟩ := h.begins
  have hfeed : c ≠ '\n' := by
    rintro rfl
    exact absurd hc (by decide)
  rw [indentBlock_eq (List.cons_ne_nil _ _) hlast, lineLead_cons hfeed]

/-- One member is read in front of what is left. -/
theorem spells_block (h : IsStatic text) (hfits : IndentFits indent text)
    {lay rest : List Char} (hlay : IsLayoutText lay) {limit : Int} {levels : Nat}
    {os : List Outline} (hr : Spells limit levels (some '\x7d') ('\n' :: r) os rest) :
    Spells limit levels (some '\x7d') (lay ++ (indentBlock indent text ++ '\n' :: r))
      (textOutline indent text :: os) rest := by
  have hindented := h.indents hfits (indents_indentLines indent text)
  have hbegins := hindented.begins.append ('\n' :: r)
  have hlead : IsLayoutText (lay ++ indent) := by
    rw [IsLayoutText, List.forall_mem_append]
    exact ⟨hlay, hfits.layout⟩
  rw [indentBlock_of_isStatic h, List.append_assoc, ← List.append_assoc lay]
  refine .leaf (trivia_of_layout hlead) hbegins.solid (hbegins.head_ne (by decide) (by decide))
    (hbegins.head_ne (by decide) (by decide)) (hindented.spellsLeaf r) ?_ hr
  obtain ⟨c, tail, heq, -⟩ := hindented.begins
  simp only [heq, List.length_append, List.length_cons]
  omega

theorem spells_lastLine {lay closingIndent : List Char} (hlay : IsLayoutText lay)
    (hclosing : IsLayoutText closingIndent) (limit : Int) (levels : Nat) (rest : List Char) :
    Spells limit levels (some '\x7d') (lay ++ '\n' :: (closingIndent ++ '\x7d' :: rest)) []
      ('\x7d' :: rest) := by
  have hall : IsLayoutText (lay ++ '\n' :: closingIndent) := by
    rw [IsLayoutText, List.forall_mem_append, List.forall_mem_cons]
    exact ⟨hlay, rfl, hclosing⟩
  have : Spells limit levels (some '\x7d') ((lay ++ '\n' :: closingIndent) ++ '\x7d' :: rest) []
      ('\x7d' :: rest) :=
    .done (trivia_of_layout hall) (.of_head (by decide) (by decide)) rfl
  simpa using this

/-- **Blocks of members are read** between layout and the brace behind them, each for itself. -/
theorem spells_blocks {lay closingIndent : List Char} (hlay : IsLayoutText lay)
    (hclosing : IsLayoutText closingIndent)
    (h : ∀ text ∈ texts, IsStatic text ∧ IndentFits indent text) (limit : Int) (levels : Nat)
    (rest : List Char) :
    Spells limit levels (some '\x7d')
      (lay ++ (join ['\n', '\n'] (texts.map (indentBlock indent))
        ++ '\n' :: (closingIndent ++ '\x7d' :: rest)))
      (texts.map (textOutline indent)) ('\x7d' :: rest) := by
  induction texts generalizing lay with
  | nil => exact spells_lastLine hlay hclosing limit levels rest
  | cons text texts ih =>
    rw [List.forall_mem_cons] at h
    obtain ⟨⟨hstatic, hfits⟩, htexts⟩ := h
    by_cases hne : texts = []
    · subst hne
      exact spells_block hstatic hfits hlay
        (spells_lastLine (List.forall_mem_nil _) hclosing limit levels rest)
    · have hmap : texts.map (indentBlock indent) ≠ [] := by simpa using hne
      have hbreak : IsLayoutText ['\n', '\n'] := by simp [IsLayoutText, isLayout, isLineEnd]
      have := ih hbreak htexts
      rw [List.map_cons, join_cons _ _ hmap]
      simp only [List.append_assoc, List.cons_append, List.nil_append] at this ⊢
      exact spells_block hstatic hfits hlay this

end LocalizedKeys.Expansion
