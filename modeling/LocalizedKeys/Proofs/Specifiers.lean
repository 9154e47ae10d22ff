import LocalizedKeys.Format.Specifier
import Mathlib.Data.List.TakeDrop

/-!
# Which specifiers a text has

What a specifier is can be said without a reader: `IsInstance w what` puts the text `w` together
from its parts. The reader takes the parts one after the other and never goes back, although a zero
may be a flag or belong to the width, and digits to the width or to an index. It needs not go back,
because what follows a part cannot begin with what would prolong it (`takeParts?_append`); so
`instance?` finds an instance exactly where the grammar has one, and there is never more than one.

Of all the instances in a text those count that `Matches` says: they follow one another, and no
other one begins outside of them. `Scans` says which specifiers they are, or what is wrong.
-/

namespace LocalizedKeys.Format

open Text

/-! ## The grammar -/

/-- One or more decimal digits. -/
def IsNumber (w : List Char) : Prop := w ≠ [] ∧ ∀ c ∈ w, isDecimal c = true

/-- A number or a star, and whether it is a star. -/
inductive Amount : List Char → Bool → Prop
  | number {w : List Char} : IsNumber w → Amount w false
  | star : Amount ['*'] true

/-- An index with its dollar sign, or nothing. -/
inductive IndexPart : List Char → Option (List Char) → Prop
  | absent : IndexPart [] none
  | written {digits : List Char} : IsNumber digits → IndexPart (digits ++ ['$']) (some digits)

/-- A width or nothing, and whether it is a star. -/
inductive WidthPart : List Char → Bool → Prop
  | absent : WidthPart [] false
  | written {w : List Char} {starred : Bool} : Amount w starred → WidthPart w starred

/-- A point with a precision or nothing, and whether the precision is a star. -/
inductive PrecisionPart : List Char → Bool → Prop
  | absent : PrecisionPart [] false
  | written {w : List Char} {starred : Bool} : Amount w starred → PrecisionPart ('.' :: w) starred

/-- What may stand in front of a conversion, the empty text among it. -/
def lengthModifiers : List String := ["", "hh", "h", "ll", "l", "q", "L", "z", "t", "j"]

/-- The text is an escaped percent sign or a specifier with the given parts. -/
inductive IsInstance : List Char → Instance → Prop
  | escaped : IsInstance ['%', '%'] .escaped
  | specifier {i flags w p : List Char} {index : Option (List Char)} {widthStarred starred : Bool}
      {modifier : String} {conversion : Char} :
      IndexPart i index → (∀ c ∈ flags, isFlag c = true) → WidthPart w widthStarred →
      PrecisionPart p starred → modifier ∈ lengthModifiers → conversion ∈ conversions →
      IsInstance ('%' :: (i ++ (flags ++ (w ++ (p ++ (modifier.toList ++ [conversion]))))))
        (.specifier ⟨index, widthStarred || starred, modifier, conversion⟩)

/-! ## Characters -/

/-- A character that a part behind the width can begin with. -/
def opensTail (c : Char) : Bool := c == '.' || isLengthModifier c || conversions.contains c

/-- A character of a specifier behind its index. -/
def isPartChar (c : Char) : Bool := isDecimal c || isFlag c || c == '*' || opensTail c

/-- A character of an instance. -/
def isInstanceChar (c : Char) : Bool := isPartChar c || c == '$' || c == '%'

theorem opensTail_iff {c : Char} :
    opensTail c = true ↔ c ∈ ".hlqLztj".toList ++ conversions := by
  simp [opensTail, isLengthModifier, or_assoc]

theorem ne_of_opensTail {c : Char} (h : opensTail c = true) :
    isFlag c = false ∧ isDecimal c = false ∧ c ≠ '*' := by
  have hall : (".hlqLztj".toList ++ conversions).all (fun c =>
      !isFlag c && !isDecimal c && c != '*') = true := by decide
  simpa [and_assoc] using List.all_eq_true.1 hall c (opensTail_iff.1 h)

theorem not_isPartChar_dollar : isPartChar '$' = false := by decide

theorem not_isPartChar_percent : isPartChar '%' = false := by decide

theorem isPartChar_of_isDecimal {c : Char} (h : isDecimal c = true) : isPartChar c = true := by
  simp [isPartChar, h]

theorem isPartChar_of_opensTail {c : Char} (h : opensTail c = true) : isPartChar c = true := by
  simp [isPartChar, h]

theorem Amount.all {w : List Char} {starred : Bool} (h : Amount w starred) :
    ∀ c ∈ w, isPartChar c = true := by
  intro c hc
  cases h with
  | number hw => exact isPartChar_of_isDecimal (hw.2 c hc)
  | star => rw [List.mem_singleton.1 hc]; decide

theorem WidthPart.all {w : List Char} {starred : Bool} (h : WidthPart w starred) :
    ∀ c ∈ w, isPartChar c = true := by
  cases h with
  | absent => simp
  | written hw => exact hw.all

theorem PrecisionPart.all {p : List Char} {starred : Bool} (h : PrecisionPart p starred) :
    ∀ c ∈ p, isPartChar c = true := by
  cases h with
  | absent => simp
  | written hw =>
    intro c hc
    rcases List.mem_cons.1 hc with rfl | hc
    · decide
    · exact hw.all c hc

theorem opensTail_of_mem_modifier {modifier : String} (h : modifier ∈ lengthModifiers) :
    ∀ c ∈ modifier.toList, opensTail c = true ∧ c ≠ '.' := by
  have hall : lengthModifiers.all (fun modifier =>
      modifier.toList.all fun c => opensTail c && c != '.') = true := by decide
  simpa using List.all_eq_true.1 hall modifier h

theorem opensTail_of_mem_conversions {c : Char} (h : c ∈ conversions) :
    opensTail c = true ∧ c ≠ '.' := by
  have hall : conversions.all (fun c => opensTail c && c != '.') = true := by decide
  simpa using List.all_eq_true.1 hall c h

/-- What follows the flags of a specifier consists of characters of its parts. -/
theorem isPartChar_of_mem {flags w p : List Char} {widthStarred starred : Bool} {modifier : String}
    {conversion : Char} (hflags : ∀ c ∈ flags, isFlag c = true) (hw : WidthPart w widthStarred)
    (hp : PrecisionPart p starred) (hm : modifier ∈ lengthModifiers)
    (hconversion : conversion ∈ conversions) :
    ∀ c ∈ flags ++ (w ++ (p ++ (modifier.toList ++ [conversion]))), isPartChar c = true := by
  intro c hc
  simp only [List.mem_append, List.mem_singleton] at hc
  rcases hc with hc | hc | hc | hc | rfl
  · simp [isPartChar, hflags c hc]
  · exact hw.all c hc
  · exact hp.all c hc
  · exact isPartChar_of_opensTail (opensTail_of_mem_modifier hm c hc).1
  · exact isPartChar_of_opensTail (opensTail_of_mem_conversions hconversion).1

theorem IndexPart.all {i : List Char} {index : Option (List Char)} (h : IndexPart i index) :
    ∀ c ∈ i, isPartChar c = true ∨ c = '$' := by
  cases h with
  | absent => simp
  | written hdigits =>
    intro c hc
    rcases List.mem_append.1 hc with hc | hc
    · exact .inl (isPartChar_of_isDecimal (hdigits.2 c hc))
    · exact .inr (List.mem_singleton.1 hc)

theorem IsInstance.all {w : List Char} {what : Instance} (h : IsInstance w what) :
    ∀ c ∈ w, isInstanceChar c = true := by
  intro c hc
  cases h with
  | escaped =>
    simp only [List.mem_cons, List.not_mem_nil, or_false, or_self] at hc
    simp [isInstanceChar, hc]
  | specifier hi hflags hw hp hm hconversion =>
    rcases List.mem_cons.1 hc with rfl | hc
    · simp [isInstanceChar]
    · rcases List.mem_append.1 hc with hc | hc
      · rcases hi.all c hc with hc | hc <;> simp [isInstanceChar, hc]
      · simp [isInstanceChar, isPartChar_of_mem hflags hw hp hm hconversion c hc]

theorem IsInstance.ne_nil {w : List Char} {what : Instance} (h : IsInstance w what) : w ≠ [] := by
  cases h <;> exact List.cons_ne_nil _ _

/-! ## The parts as they are taken -/

theorem takeWhile_append_boundary {p : Char → Bool} {w r : List Char} (hw : ∀ c ∈ w, p c = true)
    (hr : ∀ c ∈ r.head?, p c = false) :
    (w ++ r).takeWhile p = w ∧ (w ++ r).dropWhile p = r := by
  rw [List.takeWhile_append_of_pos hw, List.dropWhile_append_of_pos hw]
  cases r with
  | nil => simp
  | cons c r => simp [hr c rfl]

theorem spanDigits_eq (cs : List Char) :
    spanDigits cs = (cs.takeWhile isDecimal, cs.dropWhile isDecimal) :=
  List.span_eq_takeWhile_dropWhile isDecimal cs

theorem spanDigits_append {digits r : List Char} (hdigits : ∀ c ∈ digits, isDecimal c = true)
    (hr : ∀ c ∈ r.head?, isDecimal c = false) : spanDigits (digits ++ r) = (digits, r) := by
  obtain ⟨htake, hdrop⟩ := takeWhile_append_boundary hdigits hr
  rw [spanDigits_eq, htake, hdrop]

theorem isNumber_takeWhile {cs : List Char} (h : cs.takeWhile isDecimal ≠ []) :
    IsNumber (cs.takeWhile isDecimal) :=
  ⟨h, fun c hc => List.all_eq_true.1 (List.all_takeWhile (l := cs)) c hc⟩

/-! ### The index -/

theorem takeIndex_spec (cs : List Char) :
    ∃ i, cs = i ++ (takeIndex cs).2 ∧ IndexPart i (takeIndex cs).1 := by
  unfold takeIndex
  rw [spanDigits_eq]
  split
  · rename_i digits rest heq
    obtain ⟨rfl, hrest⟩ := Prod.mk.inj heq
    split
    · exact ⟨[], rfl, .absent⟩
    · rename_i hne
      refine ⟨_, ?_, .written (isNumber_takeWhile (by simpa using hne))⟩
      rw [List.append_assoc, List.singleton_append, ← hrest, List.takeWhile_append_dropWhile]
  · exact ⟨[], rfl, .absent⟩

theorem takeIndex_written {digits : List Char} (h : IsNumber digits) (r : List Char) :
    takeIndex (digits ++ '$' :: r) = (some digits, r) := by
  have hspan : spanDigits (digits ++ '$' :: r) = (digits, '$' :: r) :=
    spanDigits_append h.2 (by simp; decide)
  rw [takeIndex, hspan]
  simp [h.1]

/-- Without a dollar sign before the first character that is no digit there is no index. -/
theorem takeIndex_absent {cs : List Char} (h : (cs.dropWhile isDecimal).head? ≠ some '$') :
    takeIndex cs = (none, cs) := by
  rw [takeIndex, spanDigits_eq]
  split
  · rename_i digits rest heq
    obtain ⟨-, hrest⟩ := Prod.mk.inj heq
    rw [hrest] at h
    exact (h rfl).elim
  · rfl

theorem head?_dropWhile_ne {cs : List Char} (r : List Char) (hne : '$' ∉ cs)
    (hstop : ∃ c ∈ cs, isDecimal c = false) :
    ((cs ++ r).dropWhile isDecimal).head? ≠ some '$' := by
  induction cs with
  | nil => simp at hstop
  | cons c cs ih =>
    rw [List.mem_cons, not_or] at hne
    rw [List.cons_append, List.dropWhile_cons]
    split
    · rename_i hc
      obtain ⟨d, hd, hdecimal⟩ := hstop
      rcases List.mem_cons.1 hd with rfl | hd
      · rw [hc] at hdecimal
        contradiction
      · exact ih hne.2 ⟨d, hd, hdecimal⟩
    · exact fun h => hne.1 (Option.some.inj h).symm

/-! ### Width and precision -/

theorem takeAmount?_spec {cs rest : List Char} {starred : Bool}
    (h : takeAmount? cs = some (starred, rest)) : ∃ w, cs = w ++ rest ∧ Amount w starred := by
  unfold takeAmount? at h
  split at h
  · obtain ⟨rfl, rfl⟩ := Prod.mk.inj (Option.some.inj h)
    exact ⟨['*'], rfl, .star⟩
  · rw [spanDigits_eq] at h
    split at h
    · simp at h
    · rename_i digits after hne heq
      obtain ⟨rfl, rfl⟩ := Prod.mk.inj heq
      obtain ⟨rfl, rfl⟩ := Prod.mk.inj (Option.some.inj h)
      exact ⟨_, List.takeWhile_append_dropWhile.symm, .number (isNumber_takeWhile hne)⟩

theorem takeAmount?_append {w r : List Char} {starred : Bool} (h : Amount w starred)
    (hr : ∀ c ∈ r.head?, isDecimal c = false) : takeAmount? (w ++ r) = some (starred, r) := by
  cases h with
  | star => rfl
  | number hw =>
    have hspan := spanDigits_append hw.2 hr
    obtain ⟨hne, hall⟩ := hw
    cases w with
    | nil => exact absurd rfl hne
    | cons c w =>
      have hstar : c ≠ '*' := by
        rintro rfl
        exact absurd (hall '*' (List.mem_cons_self ..)) (by decide)
      unfold takeAmount?
      split
      · rename_i heq
        exact absurd (List.cons.inj heq).1 hstar
      · rw [hspan]

/-- A text that begins a later part has no amount at its front. -/
theorem takeAmount?_tail {r : List Char} (hr : ∀ c ∈ r.head?, opensTail c = true) :
    takeAmount? r = none := by
  cases r with
  | nil => rfl
  | cons c r =>
    obtain ⟨-, hdecimal, hstar⟩ := ne_of_opensTail (hr c rfl)
    unfold takeAmount?
    split
    · rename_i heq
      exact absurd (List.cons.inj heq).1 hstar
    · rw [spanDigits_eq]
      simp [hdecimal]

theorem takeWidth_spec (cs : List Char) :
    ∃ w, cs = w ++ ((takeAmount? cs).getD (false, cs)).2 ∧
      WidthPart w ((takeAmount? cs).getD (false, cs)).1 := by
  cases h : takeAmount? cs with
  | none => exact ⟨[], rfl, .absent⟩
  | some r =>
    obtain ⟨w, hcs, hw⟩ := takeAmount?_spec h
    exact ⟨w, hcs, .written hw⟩

/-- The flags may take zeros away from the width, but not its end. -/
theorem takeWidth_append {flags w r : List Char} {starred : Bool}
    (hflags : ∀ c ∈ flags, isFlag c = true) (hw : WidthPart w starred)
    (hr : ∀ c ∈ r.head?, opensTail c = true) :
    (takeAmount? ((flags ++ (w ++ r)).dropWhile isFlag)).getD
      (false, (flags ++ (w ++ r)).dropWhile isFlag) = (starred, r) := by
  have hflag : ∀ c ∈ r.head?, isFlag c = false := fun c hc => (ne_of_opensTail (hr c hc)).1
  have hdecimal : ∀ c ∈ r.head?, isDecimal c = false := fun c hc => (ne_of_opensTail (hr c hc)).2.1
  have habsent : r.dropWhile isFlag = r := by
    simpa using (takeWhile_append_boundary (w := []) (by simp) hflag).2
  rw [List.dropWhile_append_of_pos hflags]
  cases hw with
  | absent =>
    rw [List.nil_append, habsent, takeAmount?_tail hr]
    rfl
  | written hw =>
    cases hw with
    | star =>
      rw [List.singleton_append, List.dropWhile_cons_of_neg (by decide)]
      rfl
    | number hw =>
      rw [List.dropWhile_append, habsent]
      split
      · rw [takeAmount?_tail hr]
        rfl
      · rename_i hne
        have hnumber : IsNumber (w.dropWhile isFlag) :=
          ⟨by simpa using hne, fun c hc => hw.2 c ((List.dropWhile_sublist _).mem hc)⟩
        rw [takeAmount?_append (.number hnumber) hdecimal]
        rfl

theorem takePrecision_spec (cs : List Char) :
    ∃ p, cs = p ++ (takePrecision cs).2 ∧ PrecisionPart p (takePrecision cs).1 := by
  unfold takePrecision
  split
  · rename_i rest
    cases h : takeAmount? rest with
    | none => exact ⟨[], rfl, .absent⟩
    | some r =>
      obtain ⟨w, hrest, hw⟩ := takeAmount?_spec h
      exact ⟨'.' :: w, by rw [hrest]; rfl, .written hw⟩
  · exact ⟨[], rfl, .absent⟩

theorem takePrecision_append {p r : List Char} {starred : Bool} (hp : PrecisionPart p starred)
    (hr : ∀ c ∈ r.head?, opensTail c = true ∧ c ≠ '.') :
    takePrecision (p ++ r) = (starred, r) := by
  cases hp with
  | absent =>
    rw [List.nil_append]
    unfold takePrecision
    split
    · exact absurd rfl (hr '.' rfl).2
    · rfl
  | written hw =>
    rw [List.cons_append, takePrecision,
      takeAmount?_append hw fun c hc => (ne_of_opensTail (hr c hc).1).2.1]
    rfl

/-! ### The length modifier -/

theorem takeLengthModifier_spec (cs : List Char) :
    cs = (takeLengthModifier cs).1.toList ++ (takeLengthModifier cs).2 ∧
      (takeLengthModifier cs).1 ∈ lengthModifiers := by
  unfold takeLengthModifier
  split
  · exact ⟨by simp, by simp [lengthModifiers]⟩
  · exact ⟨by simp, by simp [lengthModifiers]⟩
  · rename_i c rest _ _
    split
    · rename_i hc
      refine ⟨by simp, ?_⟩
      simp only [isLengthModifier, Bool.or_eq_true, beq_iff_eq, or_assoc] at hc
      have hall : ['h', 'l', 'q', 'L', 'z', 't', 'j'].all (fun c =>
          lengthModifiers.contains (String.singleton c)) = true := by decide
      exact List.contains_iff_mem.1 (List.all_eq_true.1 hall c (by simpa using hc))
    · exact ⟨by simp, by simp [lengthModifiers]⟩
  · exact ⟨by simp, by simp [lengthModifiers]⟩

theorem takeLengthModifier_single {m c : Char} (hm : isLengthModifier m = true)
    (hc : isLengthModifier c = false) (r : List Char) :
    takeLengthModifier (m :: c :: r) = (String.singleton m, c :: r) := by
  unfold takeLengthModifier
  split
  · rename_i heq
    obtain ⟨-, rfl, -⟩ := by simpa only [List.cons.injEq] using heq
    exact absurd hc (by decide)
  · rename_i heq
    obtain ⟨-, rfl, -⟩ := by simpa only [List.cons.injEq] using heq
    exact absurd hc (by decide)
  · rename_i heq
    obtain ⟨rfl, rfl⟩ := List.cons.inj heq
    rw [if_pos hm]
  · rename_i heq
    exact absurd heq (List.cons_ne_nil _ _)

theorem takeLengthModifier_append {modifier : String} (hm : modifier ∈ lengthModifiers) {c : Char}
    (hc : c ∈ conversions) (r : List Char) :
    takeLengthModifier (modifier.toList ++ c :: r) = (modifier, c :: r) := by
  have hall : conversions.all (fun c => !isLengthModifier c) = true := by decide
  have hnot : isLengthModifier c = false := by simpa using List.all_eq_true.1 hall c hc
  simp only [lengthModifiers, List.mem_cons, List.not_mem_nil, or_false] at hm
  rcases hm with rfl | rfl | rfl | rfl | rfl | rfl | rfl | rfl | rfl | rfl
  · have hh : c ≠ 'h' := by rintro rfl; exact absurd hnot (by decide)
    have hl : c ≠ 'l' := by rintro rfl; exact absurd hnot (by decide)
    simp [takeLengthModifier, hnot, hh, hl]
  case inr.inl => rfl
  case inr.inr.inr.inl => rfl
  all_goals exact takeLengthModifier_single (by decide) hnot r

/-! ## Instances as they are found -/

theorem takeParts?_spec {cs rest : List Char} {parts : Parts}
    (h : takeParts? cs = some (parts, rest)) :
    ∃ w, cs = w ++ rest ∧ IsInstance ('%' :: w) (.specifier parts) := by
  unfold takeParts? at h
  dsimp only at h
  obtain ⟨i, hi, hindex⟩ := takeIndex_spec cs
  generalize takeIndex cs = afterIndex at h hi hindex
  have hflagged : ∀ c ∈ afterIndex.2.takeWhile isFlag, isFlag c = true := fun c hc =>
    List.all_eq_true.1 (List.all_takeWhile (l := afterIndex.2)) c hc
  have hflags : afterIndex.2.takeWhile isFlag ++ afterIndex.2.dropWhile isFlag = afterIndex.2 :=
    List.takeWhile_append_dropWhile
  generalize afterIndex.2.takeWhile isFlag = flags at hflagged hflags
  generalize afterIndex.2.dropWhile isFlag = afterFlags at h hflags
  obtain ⟨w, hw, hwidth⟩ := takeWidth_spec afterFlags
  generalize (takeAmount? afterFlags).getD (false, afterFlags) = afterWidth at h hw hwidth
  obtain ⟨p, hp, hprecision⟩ := takePrecision_spec afterWidth.2
  generalize takePrecision afterWidth.2 = afterPrecision at h hp hprecision
  obtain ⟨hm, hmodifier⟩ := takeLengthModifier_spec afterPrecision.2
  generalize takeLengthModifier afterPrecision.2 = afterLength at h hm hmodifier
  split at h
  · rename_i conversion after hafter
    split at h
    · rename_i hconversion
      obtain ⟨rfl, rfl⟩ := Prod.mk.inj (Option.some.inj h)
      refine ⟨_, ?_, .specifier hindex hflagged hwidth hprecision hmodifier
        (List.contains_iff_mem.1 hconversion)⟩
      rw [hi, ← hflags, hw, hp, hm, hafter]
      simp
    · simp at h
  · simp at h

theorem takeParts?_append {i flags w p : List Char} {index : Option (List Char)}
    {widthStarred starred : Bool} {modifier : String} {conversion : Char} (r : List Char)
    (hi : IndexPart i index) (hflags : ∀ c ∈ flags, isFlag c = true)
    (hw : WidthPart w widthStarred) (hp : PrecisionPart p starred)
    (hm : modifier ∈ lengthModifiers) (hconversion : conversion ∈ conversions) :
    takeParts? (i ++ (flags ++ (w ++ (p ++ (modifier.toList ++ [conversion])))) ++ r)
      = some (⟨index, widthStarred || starred, modifier, conversion⟩, r) := by
  have hparts := isPartChar_of_mem hflags hw hp hm hconversion
  -- what is left after the precision, and what is left after the width, begins a later part
  have hafterPrecision : ∀ c ∈ (modifier.toList ++ conversion :: r).head?,
      opensTail c = true ∧ c ≠ '.' := by
    intro c hc
    cases hmodifier : modifier.toList with
    | nil =>
      rw [hmodifier] at hc
      obtain rfl := Option.some.inj hc
      exact opensTail_of_mem_conversions hconversion
    | cons first others =>
      rw [hmodifier] at hc
      obtain rfl := Option.some.inj hc
      exact opensTail_of_mem_modifier hm first (hmodifier ▸ List.mem_cons_self ..)
  have hafterWidth : ∀ c ∈ (p ++ (modifier.toList ++ conversion :: r)).head?,
      opensTail c = true := by
    cases hp with
    | absent => exact fun c hc => (hafterPrecision c hc).1
    | written => intro c hc; obtain rfl := Option.some.inj hc; decide
  have hindex : takeIndex (i ++ (flags ++ (w ++ (p ++ (modifier.toList ++ conversion :: r)))))
      = (index, flags ++ (w ++ (p ++ (modifier.toList ++ conversion :: r)))) := by
    cases hi with
    | written hdigits =>
      rw [List.append_assoc, List.singleton_append, takeIndex_written hdigits]
    | absent =>
      have hstop := head?_dropWhile_ne r (fun hdollar => by
        have := hparts '$' hdollar
        rw [not_isPartChar_dollar] at this
        contradiction) ⟨conversion, by simp,
          (ne_of_opensTail (opensTail_of_mem_conversions hconversion).1).2.1⟩
      simp only [List.append_assoc, List.singleton_append] at hstop
      exact takeIndex_absent hstop
  unfold takeParts?
  simp only [List.append_assoc, List.singleton_append, hindex]
  simp only [takeWidth_append hflags hw hafterWidth, takePrecision_append hp hafterPrecision,
    takeLengthModifier_append hm hconversion]
  rw [if_pos (List.contains_iff_mem.2 hconversion)]

theorem instance?_percent {rest : List Char} (h : rest.head? ≠ some '%') :
    instance? ('%' :: rest) = (takeParts? rest).map fun (parts, after) =>
      (.specifier parts, ('%' :: rest).length - after.length) := by
  unfold instance?
  split
  · rename_i heq
    obtain ⟨tail, rfl⟩ : ∃ tail, rest = '%' :: tail := ⟨_, (List.cons.inj heq).2⟩
    exact (h rfl).elim
  · rename_i heq
    obtain rfl := (List.cons.inj heq).2
    rfl
  · rename_i hne
    exact absurd rfl (hne _)

/-- An instance is found exactly where the grammar has one. -/
theorem instance?_eq_some_iff {cs : List Char} {what : Instance} {length : Nat} :
    instance? cs = some (what, length) ↔
      ∃ w r, cs = w ++ r ∧ w.length = length ∧ IsInstance w what := by
  constructor
  · intro h
    unfold instance? at h
    split at h
    · obtain ⟨rfl, rfl⟩ := Prod.mk.inj (Option.some.inj h)
      exact ⟨['%', '%'], _, rfl, rfl, .escaped⟩
    · obtain ⟨⟨parts, after⟩, hparts, heq⟩ := Option.map_eq_some_iff.1 h
      obtain ⟨rfl, rfl⟩ := Prod.mk.inj heq
      obtain ⟨w, rfl, hw⟩ := takeParts?_spec hparts
      refine ⟨'%' :: w, after, rfl, ?_, hw⟩
      simp only [List.length_cons, List.length_append]
      omega
    · simp at h
  · rintro ⟨w, r, rfl, rfl, hw⟩
    cases hw with
    | escaped => rfl
    | @specifier i flags w p index widthStarred starred modifier conversion hi hflags hw hp hm
        hconversion =>
      have htake := takeParts?_append r hi hflags hw hp hm hconversion
      have hne : i ++ (flags ++ (w ++ (p ++ (modifier.toList ++ [conversion])))) ≠ [] := by simp
      have hpercent : '%' ∉ i ++ (flags ++ (w ++ (p ++ (modifier.toList ++ [conversion])))) := by
        intro h
        rcases List.mem_append.1 h with h | h
        · rcases hi.all '%' h with h | h
          · simp [not_isPartChar_percent] at h
          · simp at h
        · simpa [not_isPartChar_percent] using
            isPartChar_of_mem hflags hw hp hm hconversion '%' h
      generalize i ++ (flags ++ (w ++ (p ++ (modifier.toList ++ [conversion])))) = body at *
      have hhead : (body ++ r).head? ≠ some '%' := by
        cases body with
        | nil => exact absurd rfl hne
        | cons c body => exact fun h => hpercent (Option.some.inj h ▸ List.mem_cons_self ..)
      rw [List.cons_append, instance?_percent hhead, htake]
      simp only [Option.map_some, List.length_cons, List.length_append, Option.some.injEq,
        Prod.mk.injEq, true_and]
      omega

/-- At most one text at the front of another is an instance. -/
theorem IsInstance.unique {w w' r r' : List Char} {what what' : Instance} (h : IsInstance w what)
    (h' : IsInstance w' what') (heq : w ++ r = w' ++ r') : w = w' ∧ what = what' := by
  have hfound := instance?_eq_some_iff.2 ⟨w, r, rfl, rfl, h⟩
  rw [instance?_eq_some_iff.2 ⟨w', r', heq, rfl, h'⟩, Option.some.injEq, Prod.mk.injEq] at hfound
  exact ⟨(List.append_inj heq hfound.2.symm).1, hfound.1.symm⟩

theorem instance?_pos {cs : List Char} {what : Instance} {length : Nat}
    (h : instance? cs = some (what, length)) : 0 < length := by
  obtain ⟨w, r, -, rfl, hw⟩ := instance?_eq_some_iff.1 h
  exact List.length_pos_iff.2 hw.ne_nil

/-! ## All instances of a text -/

/-- The text has an instance at an offset. -/
def InstanceAt (cs : List Char) (p : Nat) (w : List Char) (what : Instance) : Prop :=
  IsInstance w what ∧ w <+: cs.drop p

/-- The offset where an instance ends. -/
def Found.stop (f : Found) : Nat := f.position + f.text.toList.length

/-- The matches in a text from an offset on: instances one behind the other, such that every
instance is one of them or begins inside of one. -/
structure Matches (cs : List Char) (start : Nat) (found : List Found) : Prop where
  instances : ∀ f ∈ found, start ≤ f.position ∧ InstanceAt cs f.position f.text.toList f.what
  disjoint : found.Pairwise fun f g => f.stop ≤ g.position
  complete : ∀ p w what, start ≤ p → InstanceAt cs p w what →
    ∃ f ∈ found, f.position ≤ p ∧ p < f.stop

theorem InstanceAt.unique {cs w w' : List Char} {p : Nat} {what what' : Instance}
    (h : InstanceAt cs p w what) (h' : InstanceAt cs p w' what') : w = w' ∧ what = what' := by
  obtain ⟨hw, r, hr⟩ := h
  obtain ⟨hw', r', hr'⟩ := h'
  exact hw.unique hw' (hr.trans hr'.symm)

theorem InstanceAt.lt_length {cs w : List Char} {p : Nat} {what : Instance}
    (h : InstanceAt cs p w what) : p < cs.length := by
  have hle := h.2.length_le
  have := List.length_pos_iff.2 h.1.ne_nil
  rw [List.length_drop] at hle
  omega

variable {cs : List Char} {start : Nat}

theorem InstanceAt.instance?_eq {p : Nat} {w : List Char} {what : Instance}
    (h : InstanceAt cs p w what) : instance? (cs.drop p) = some (what, w.length) := by
  obtain ⟨hw, r, hr⟩ := h
  exact instance?_eq_some_iff.2 ⟨w, r, hr.symm, rfl, hw⟩

/-- Every match ends behind its beginning, so a later one does not begin where it does. -/
theorem Matches.lt_stop {found : List Found} (h : Matches cs start found) :
    ∀ f ∈ found, f.position < f.stop := by
  intro f hf
  have := List.length_pos_iff.2 (h.instances f hf).2.1.ne_nil
  rw [Found.stop]
  omega

theorem Matches.tail {f : Found} {found : List Found} (h : Matches cs start (f :: found)) :
    Matches cs f.stop found := by
  have hbehind := (List.pairwise_cons.1 h.disjoint).1
  have hlt := h.lt_stop f (List.mem_cons_self ..)
  have hstart := (h.instances f (List.mem_cons_self ..)).1
  refine ⟨fun g hg => ⟨hbehind g hg, (h.instances g (List.mem_cons_of_mem _ hg)).2⟩,
    (List.pairwise_cons.1 h.disjoint).2, fun p w what hp hw => ?_⟩
  obtain ⟨g, hg, hle, hstop⟩ := h.complete p w what (by omega) hw
  rcases List.mem_cons.1 hg with rfl | hg
  · omega
  · exact ⟨g, hg, hle, hstop⟩

/-- No match comes in front of the first one of another list. -/
theorem Matches.head_le {f g : Found} {found others : List Found}
    (h : Matches cs start (f :: found)) (h' : Matches cs start (g :: others)) :
    f.position ≤ g.position := by
  obtain ⟨hstart, hinstance⟩ := h'.instances g (List.mem_cons_self ..)
  obtain ⟨e, he, hle, -⟩ := h.complete g.position _ _ hstart hinstance
  rcases List.mem_cons.1 he with rfl | he
  · exact hle
  · have := (List.pairwise_cons.1 h.disjoint).1 e he
    have := h.lt_stop f (List.mem_cons_self ..)
    omega

theorem Matches.ne_nil {f : Found} {found : List Found} (h : Matches cs start (f :: found)) :
    ¬Matches cs start [] := by
  intro h'
  obtain ⟨hstart, hinstance⟩ := h.instances f (List.mem_cons_self ..)
  obtain ⟨e, he, -⟩ := h'.complete _ _ _ hstart hinstance
  simp at he

theorem Matches.unique {found others : List Found} (h : Matches cs start found)
    (h' : Matches cs start others) : found = others := by
  induction found generalizing others start with
  | nil =>
    cases others with
    | nil => rfl
    | cons g others => exact (h'.ne_nil h).elim
  | cons f found ih =>
    cases others with
    | nil => exact (h.ne_nil h').elim
    | cons g others =>
      -- the first matches begin at one offset, so they are the same instance
      have hposition := Nat.le_antisymm (h.head_le h') (h'.head_le h)
      have hf := (h.instances f (List.mem_cons_self ..)).2
      have hg := (h'.instances g (List.mem_cons_self ..)).2
      obtain ⟨htext, hwhat⟩ := hf.unique (hposition ▸ hg)
      obtain rfl : f = g := by
        cases f
        cases g
        simp_all [String.toList_inj]
      rw [ih h.tail h'.tail]

/-! ### The matches as they are found -/

theorem Matches.nil (h : cs.length ≤ start) : Matches cs start [] := by
  refine ⟨by simp, .nil, fun p w what hp hw => ?_⟩
  have := hw.lt_length
  omega

/-- An offset without an instance can be left out. -/
theorem Matches.of_next {found : List Found} (hnone : instance? (cs.drop start) = none)
    (h : Matches cs (start + 1) found) : Matches cs start found := by
  refine ⟨fun f hf => ?_, h.disjoint, fun p w what hp hw => h.complete p w what ?_ hw⟩
  · have := h.instances f hf
    exact ⟨by omega, this.2⟩
  · rcases Nat.lt_or_ge start p with hlt | hge
    · omega
    · obtain rfl : p = start := by omega
      rw [hw.instance?_eq] at hnone
      simp at hnone

/-- What begins inside of an instance that is a match is none. -/
theorem Matches.cons {found : List Found} {w r : List Char} {what : Instance}
    (hrest : cs.drop start = w ++ r) (hw : IsInstance w what)
    (h : Matches cs (start + w.length) found) :
    Matches cs start (⟨start, String.ofList w, what⟩ :: found) := by
  refine ⟨fun f hf => ?_, List.pairwise_cons.2 ⟨fun g hg => ?_, h.disjoint⟩,
    fun p v what' hp hv => ?_⟩
  · rcases List.mem_cons.1 hf with rfl | hf
    · refine ⟨Nat.le_refl _, ?_⟩
      simp only [String.toList_ofList]
      exact ⟨hw, r, hrest.symm⟩
    · have := h.instances f hf
      exact ⟨by omega, this.2⟩
  · simpa [Found.stop] using (h.instances g hg).1
  · rcases Nat.lt_or_ge p (start + w.length) with hlt | hge
    · exact ⟨_, List.mem_cons_self .., hp, by simpa [Found.stop] using hlt⟩
    · obtain ⟨f, hf, hcovers⟩ := h.complete p v what' hge hv
      exact ⟨f, List.mem_cons_of_mem _ hf, hcovers⟩

/-- What is found from an offset on, after some characters that are passed over. -/
theorem matches_instancesFrom (cs : List Char) (pos skip : Nat) :
    Matches cs (pos + skip) (instancesFrom pos skip (cs.drop pos)) := by
  generalize hrest : cs.drop pos = rest
  induction rest generalizing pos skip with
  | nil =>
    have := List.drop_eq_nil_iff.1 hrest
    exact .nil (by omega)
  | cons c rest ih =>
    have hnext : cs.drop (pos + 1) = rest := by
      rw [← List.drop_drop, hrest]
      rfl
    cases skip with
    | succ skip =>
      rw [instancesFrom, show pos + (skip + 1) = pos + 1 + skip by omega]
      exact ih (pos + 1) skip hnext
    | zero =>
      rw [instancesFrom, Nat.add_zero]
      split
      · rename_i hnone
        exact .of_next (hrest ▸ hnone) (ih (pos + 1) 0 hnext)
      · rename_i what length hsome
        obtain ⟨w, r, hcs, rfl, hw⟩ := instance?_eq_some_iff.1 hsome
        -- the character here is one of those that the match covers
        have hmatches := ih (pos + 1) (w.length - 1) hnext
        have hpos := instance?_pos hsome
        rw [show pos + 1 + (w.length - 1) = pos + w.length by omega] at hmatches
        have htext : (c :: rest).take w.length = w := by rw [hcs, List.take_left]
        rw [htext]
        exact .cons (hrest.trans hcs) hw hmatches

theorem matches_iff {text : String} {found : List Found} :
    Matches text.toList 0 found ↔ instances text = found := by
  have h : Matches text.toList 0 (instances text) := matches_instancesFrom text.toList 0 0
  exact ⟨h.unique, fun heq => heq ▸ h⟩

/-! ## Numbering -/

/-- The matches that are specifiers, with their parts. -/
def specifiersAmong (found : List Found) : List (Found × Parts) :=
  found.filterMap fun f =>
    match f.what with
    | .escaped => none
    | .specifier parts => some (f, parts)

theorem mem_specifiersAmong {found : List Found} {m : Found × Parts} :
    m ∈ specifiersAmong found ↔ m.1 ∈ found ∧ m.1.what = .specifier m.2 := by
  rw [specifiersAmong, List.mem_filterMap]
  constructor
  · rintro ⟨f, hf, hm⟩
    split at hm
    · simp at hm
    · rename_i parts hwhat
      obtain rfl := Option.some.inj hm
      exact ⟨hf, hwhat⟩
  · rintro ⟨hf, hwhat⟩
    exact ⟨m.1, hf, by rw [hwhat]⟩

/-- What is wrong with a specifier where indices are to be written or not. -/
inductive Fault (explicit : Bool) : Found × Parts → FormatFailure → Prop
  | starred {f : Found} {parts : Parts} :
      parts.starred = true → Fault explicit (f, parts) (.rejected (.unknown f.text))
  | mixed {f : Found} {parts : Parts} :
      parts.starred = false → parts.index.isSome ≠ explicit →
      Fault explicit (f, parts) (.rejected (.mixedIndexing f.text))
  | tooLong {f : Found} {parts : Parts} {digits : List Char} :
      parts.starred = false → explicit = true → parts.index = some digits →
      maxIndexDigits < digits.length → Fault explicit (f, parts) (.indexTooLong digits.length)

/-- The specifier that comes after `count` others. -/
def numbered (count : Nat) (m : Found × Parts) : Specifier where
  text := m.1.text
  index := ((m.2.index.map decimalNumber).getD (count + 1) : Nat)
  explicit := m.2.index.isSome
  lengthModifier := m.2.lengthModifier
  conversion := m.2.conversion
  position := m.1.position

/-- What comes of specifiers after `count` others, where indices are to be written or not: each of
them with its number, or what is wrong with the first one that has a fault. -/
inductive Scans (explicit : Bool) (count : Nat) (ms : List (Found × Parts)) :
    Except FormatFailure (List Specifier) → Prop
  | sound : (∀ m ∈ ms, ∀ failure, ¬Fault explicit m failure) →
      Scans explicit count ms (.ok (ms.mapIdx fun i m => numbered (count + i) m))
  | faulty {before after : List (Found × Parts)} {m : Found × Parts} {failure : FormatFailure} :
      ms = before ++ m :: after → (∀ other ∈ before, ∀ failure, ¬Fault explicit other failure) →
      Fault explicit m failure → Scans explicit count ms (.error failure)

/-- Whether the first specifier has an index. -/
def firstExplicit (ms : List (Found × Parts)) : Bool := ms.head?.any fun m => m.2.index.isSome

theorem numberFrom_of_fault {f : Found} {parts : Parts} {explicit? : Option Bool} {explicit : Bool}
    {failure : FormatFailure} (hwhat : f.what = .specifier parts)
    (hexplicit : explicit?.getD parts.index.isSome = explicit)
    (h : Fault explicit (f, parts) failure) (count : Nat) (rest : List Found) :
    numberFrom explicit? count (f :: rest) = .error failure := by
  rw [numberFrom, hwhat]
  dsimp only
  rw [hexplicit]
  cases h with
  | starred hstarred => rw [if_pos hstarred]
  | mixed hstarred hmixed =>
    rw [if_neg (by simp [hstarred]), if_pos (by simpa using Ne.symm hmixed)]
  | tooLong hstarred htrue hindex hlong =>
    rw [if_neg (by simp [hstarred]), if_neg (by simp [htrue, hindex]),
      if_pos (by simpa [hindex] using hlong)]
    simp [hindex]

/-- What is known of a specifier without a fault. -/
theorem index_of_not_fault {m : Found × Parts} {explicit : Bool}
    (h : ∀ failure, ¬Fault explicit m failure) :
    m.2.starred = false ∧ m.2.index.isSome = explicit ∧
      ∀ digits ∈ m.2.index, digits.length ≤ maxIndexDigits := by
  have hstarred : m.2.starred = false := by
    simpa using fun hstarred => h _ (.starred hstarred)
  have hsame : m.2.index.isSome = explicit :=
    Classical.byContradiction fun hne => h _ (.mixed hstarred hne)
  refine ⟨hstarred, hsame, fun digits hdigits => Nat.not_lt.1 fun hlong => ?_⟩
  have hindex : m.2.index = some digits := hdigits
  exact h _ (.tooLong hstarred (by simp [← hsame, hindex]) hindex hlong)

theorem numberFrom_of_sound {f : Found} {parts : Parts} {explicit? : Option Bool} {explicit : Bool}
    (hwhat : f.what = .specifier parts)
    (hexplicit : explicit?.getD parts.index.isSome = explicit)
    (h : ∀ failure, ¬Fault explicit (f, parts) failure) (count : Nat) (rest : List Found) :
    numberFrom explicit? count (f :: rest)
      = (numberFrom (some explicit) (count + 1) rest).map (numbered count (f, parts) :: ·) := by
  obtain ⟨hstarred, hsame, hfits⟩ : parts.starred = false ∧ parts.index.isSome = explicit ∧
      ∀ digits ∈ parts.index, digits.length ≤ maxIndexDigits := index_of_not_fault h
  have hshort : ¬maxIndexDigits < (parts.index.getD []).length := by
    cases hindex : parts.index with
    | none => simp
    | some digits => exact Nat.not_lt.2 (hfits digits hindex)
  rw [numberFrom, hwhat]
  dsimp only
  rw [hexplicit, if_neg (by simp [hstarred]), if_neg (by simp [hsame]), if_neg hshort, hsame]
  cases numberFrom (some explicit) (count + 1) rest with
  | error e => rfl
  | ok others => cases hindex : parts.index <;> simp [Except.map, numbered, hindex, ← hsame]

theorem Scans.numberFrom_eq {explicit? : Option Bool} {explicit : Bool} {count : Nat}
    {found : List Found} {result : Except FormatFailure (List Specifier)}
    (hexplicit : ∀ m ∈ (specifiersAmong found).head?,
      explicit?.getD m.2.index.isSome = explicit)
    (h : Scans explicit count (specifiersAmong found) result) :
    numberFrom explicit? count found = result := by
  induction found generalizing explicit? count result with
  | nil =>
    cases h with
    | sound => rfl
    | faulty hsplit => simp [specifiersAmong] at hsplit
  | cons f rest ih =>
    cases hwhat : f.what with
    | escaped =>
      have hsame : specifiersAmong (f :: rest) = specifiersAmong rest := by
        simp [specifiersAmong, hwhat]
      rw [hsame] at h hexplicit
      rw [numberFrom, hwhat]
      exact ih hexplicit h
    | specifier parts =>
      have hcons : specifiersAmong (f :: rest) = (f, parts) :: specifiersAmong rest := by
        simp [specifiersAmong, hwhat]
      rw [hcons] at h hexplicit
      -- behind this specifier it is settled whether indices are written
      have hfirst := hexplicit _ rfl
      cases h with
      | sound hsound =>
        rw [numberFrom_of_sound hwhat hfirst (hsound _ (List.mem_cons_self ..)),
          @ih (some explicit) _ _ (fun _ _ => rfl)
            (.sound fun m hm => hsound m (List.mem_cons_of_mem _ hm))]
        simp [Except.map, List.mapIdx_cons, Nat.add_assoc, Nat.add_comm 1]
      | @faulty before after m failure hsplit hbefore hfault =>
        cases before with
        | nil =>
          obtain ⟨rfl, -⟩ := List.cons.inj hsplit
          exact numberFrom_of_fault hwhat hfirst hfault count rest
        | cons other before =>
          obtain ⟨rfl, hrest⟩ := List.cons.inj hsplit
          rw [numberFrom_of_sound hwhat hfirst (hbefore _ (List.mem_cons_self ..)),
            @ih (some explicit) _ _ (fun _ _ => rfl)
              (.faulty hrest (fun m hm => hbefore m (List.mem_cons_of_mem _ hm)) hfault)]
          rfl

/-- Either no specifier has a fault, or one is the first that has. -/
theorem exists_scans (explicit : Bool) (count : Nat) (ms : List (Found × Parts)) :
    ∃ result, Scans explicit count ms result := by
  have hdecided : (∀ m ∈ ms, ∀ failure, ¬Fault explicit m failure) ∨
      ∃ before m after failure, ms = before ++ m :: after ∧
        (∀ other ∈ before, ∀ failure, ¬Fault explicit other failure) ∧
        Fault explicit m failure := by
    induction ms with
    | nil => exact .inl (by simp)
    | cons m ms ih =>
      by_cases hfault : ∃ failure, Fault explicit m failure
      · obtain ⟨failure, hfault⟩ := hfault
        exact .inr ⟨[], m, ms, failure, rfl, by simp, hfault⟩
      · have hm : ∀ failure, ¬Fault explicit m failure := not_exists.1 hfault
        rcases ih with hsound | ⟨before, n, after, failure, rfl, hbefore, hn⟩
        · exact .inl (List.forall_mem_cons.2 ⟨hm, hsound⟩)
        · exact .inr ⟨m :: before, n, after, failure, rfl, List.forall_mem_cons.2 ⟨hm, hbefore⟩, hn⟩
  rcases hdecided with hsound | ⟨before, m, after, failure, hsplit, hbefore, hfault⟩
  · exact ⟨_, .sound hsound⟩
  · exact ⟨_, .faulty hsplit hbefore hfault⟩

theorem scanSpecifiers_iff {text : String} {result : Except FormatFailure (List Specifier)} :
    scanSpecifiers text = result ↔
      Scans (firstExplicit (specifiersAmong (instances text))) 0
        (specifiersAmong (instances text)) result := by
  have hrun : ∀ {result}, Scans (firstExplicit (specifiersAmong (instances text))) 0
      (specifiersAmong (instances text)) result → scanSpecifiers text = result := fun h => by
    refine @Scans.numberFrom_eq none _ _ _ _ (fun m hm => ?_) h
    rw [firstExplicit, Option.mem_def.1 hm]
    rfl
  refine ⟨?_, hrun⟩
  rintro rfl
  obtain ⟨result, hscans⟩ := exists_scans (firstExplicit (specifiersAmong (instances text))) 0
    (specifiersAmong (instances text))
  rwa [hrun hscans]

/-! ## Main statement -/

/-- **The specifiers of a text are those of the grammar.** At each offset a text has at most one
instance, and there is one way only to choose the matches; the instances that are not escaped are
the specifiers, unless one of them has a fault. -/
theorem specifiers_of_text (text : String) :
    (∀ p w w' what what', InstanceAt text.toList p w what → InstanceAt text.toList p w' what' →
        w = w' ∧ what = what') ∧
      ∃ found, (∀ others, Matches text.toList 0 others ↔ others = found) ∧
        (∀ result, scanSpecifiers text = result ↔
          Scans (firstExplicit (specifiersAmong found)) 0 (specifiersAmong found) result) ∧
        (hasSpecifiers text = true ↔ ∃ f ∈ found, f.what ≠ .escaped) := by
  refine ⟨fun p w w' what what' h h' => h.unique h', instances text, fun others => ?_,
    fun result => scanSpecifiers_iff, ?_⟩
  · rw [matches_iff]
    exact eq_comm
  · simp [hasSpecifiers]

end LocalizedKeys.Format
