import LocalizedKeys.Catalog.Build
import LocalizedKeys.Proofs.Bodies
import LocalizedKeys.Proofs.Outcome
import LocalizedKeys.Proofs.Specifiers

/-!
# Literals and the texts they stand for

The parameters of a member are those of its default value as it is written, with quotes and
escapes, but what is formatted in the end is the value of the literal. Both have the same
specifiers, because an instance never lies across a character that is in no instance
(`instancesFrom_append`): quotes, backslashes, and whatever an escape stands for are such
characters. The letter of an escape may be one of an instance, but it begins none and stands at the
front of its run, so it does not matter whether it is there (`Alike.of_body`).

There are two exceptions, and no statement about them: an apostrophe is a flag, and an escaped scalar
may be any character.
-/

namespace LocalizedKeys.Format

open Text

/-! ## Runs of characters of instances -/

theorem IsInstance.exists_cons {w : List Char} {what : Instance} (h : IsInstance w what) :
    ∃ rest, w = '%' :: rest := by
  cases h <;> exact ⟨_, rfl⟩

theorem instance?_of_ne {c : Char} (h : c ≠ '%') (cs : List Char) : instance? (c :: cs) = none := by
  rw [Option.eq_none_iff_forall_ne_some]
  rintro ⟨what, length⟩ hfound
  obtain ⟨w, r, heq, -, hw⟩ := instance?_eq_some_iff.1 hfound
  obtain ⟨rest, rfl⟩ := hw.exists_cons
  exact h (List.cons.inj heq).1

/-- An instance at the front of a run of such characters ends in it. -/
theorem instance?_append {w r : List Char} (hw : ∀ c ∈ w, isInstanceChar c = true)
    (hr : ∀ c ∈ r.head?, isInstanceChar c = false) : instance? (w ++ r) = instance? w := by
  ext ⟨what, length⟩
  rw [instance?_eq_some_iff, instance?_eq_some_iff]
  constructor
  · rintro ⟨v, rest, heq, hlength, hv⟩
    rcases List.append_eq_append_iff.1 heq with ⟨behind, rfl, rfl⟩ | ⟨behind, rfl, -⟩
    · -- the instance would have the first character behind the run
      cases behind with
      | nil => exact ⟨w, [], by simp, by simpa using hlength, by simpa using hv⟩
      | cons c behind =>
        have hc := hv.all c (by simp)
        rw [hr c rfl] at hc
        contradiction
    · exact ⟨v, behind, rfl, hlength, hv⟩
  · rintro ⟨v, rest, rfl, hlength, hv⟩
    exact ⟨v, rest ++ r, List.append_assoc .., hlength, hv⟩

theorem length_of_instance? {cs : List Char} {what : Instance} {length : Nat}
    (h : instance? cs = some (what, length)) : length ≤ cs.length := by
  obtain ⟨w, r, rfl, rfl, -⟩ := instance?_eq_some_iff.1 h
  simp

/-- The instances of a text are those of a run and those of what follows it. -/
theorem instancesFrom_append {w r : List Char} (hw : ∀ c ∈ w, isInstanceChar c = true)
    (hr : ∀ c ∈ r.head?, isInstanceChar c = false) (pos : Nat) {skip : Nat}
    (hskip : skip ≤ w.length) :
    instancesFrom pos skip (w ++ r)
      = instancesFrom pos skip w ++ instancesFrom (pos + w.length) 0 r := by
  induction w generalizing pos skip with
  | nil =>
    obtain rfl : skip = 0 := Nat.le_zero.1 hskip
    rfl
  | cons c w ih =>
    have hrest := (List.forall_mem_cons.1 hw).2
    have hpos : pos + (c :: w).length = pos + 1 + w.length := by rw [List.length_cons]; omega
    rw [hpos]
    cases skip with
    | succ skip =>
      rw [List.cons_append, instancesFrom, instancesFrom]
      exact ih hrest (pos + 1) (Nat.le_of_succ_le_succ hskip)
    | zero =>
      have hsame := instance?_append hw hr
      rw [List.cons_append] at hsame ⊢
      rw [instancesFrom, instancesFrom, hsame]
      cases h : instance? (c :: w) with
      | none => exact ih hrest (pos + 1) (Nat.zero_le _)
      | some found =>
        obtain ⟨what, length⟩ := found
        have hle := length_of_instance? h
        rw [List.length_cons] at hle
        have htext : (c :: (w ++ r)).take length = (c :: w).take length := by
          rw [← List.cons_append, List.take_append_of_le_length (by simpa using hle)]
        -- the instance ends in the run, so the characters to pass over do too
        dsimp only
        rw [htext, ih hrest (pos + 1) (by omega), List.cons_append]

/-! ## Positions aside -/

/-- What is found, without the place. -/
def Found.unplaced (f : Found) : Found := { f with position := 0 }

/-- A specifier, without the place. -/
def Specifier.unplaced (s : Specifier) : Specifier := { s with position := 0 }

/-- The instances of a text without their places. -/
def unplacedInstances (cs : List Char) : List Found := (instancesFrom 0 0 cs).map Found.unplaced

theorem unplaced_instancesFrom (pos skip : Nat) (cs : List Char) :
    (instancesFrom pos skip cs).map Found.unplaced
      = (instancesFrom 0 skip cs).map Found.unplaced := by
  have hshift : ∀ pos' pos, (instancesFrom pos skip cs).map Found.unplaced
      = (instancesFrom pos' skip cs).map Found.unplaced := by
    induction cs generalizing skip with
    | nil => exact fun _ _ => rfl
    | cons c cs ih =>
      intro pos' pos
      cases skip with
      | succ skip => exact ih skip _ _
      | zero =>
        rw [instancesFrom, instancesFrom]
        split
        · exact ih 0 _ _
        · rw [List.map_cons, List.map_cons, ih _ (pos' + 1) (pos + 1)]
          rfl
  exact hshift 0 pos

theorem unplacedInstances_append {w r : List Char} (hw : ∀ c ∈ w, isInstanceChar c = true)
    (hr : ∀ c ∈ r.head?, isInstanceChar c = false) :
    unplacedInstances (w ++ r) = unplacedInstances w ++ unplacedInstances r := by
  rw [unplacedInstances, instancesFrom_append hw hr 0 (Nat.zero_le _), List.map_append,
    unplaced_instancesFrom (0 + w.length)]
  rfl

theorem unplacedInstances_cons_of_ne {c : Char} (h : c ≠ '%') (cs : List Char) :
    unplacedInstances (c :: cs) = unplacedInstances cs := by
  rw [unplacedInstances, instancesFrom, instance?_of_ne h]
  exact unplaced_instancesFrom 1 0 cs

theorem numberFrom_unplaced (explicit? : Option Bool) (count : Nat) (found : List Found) :
    numberFrom explicit? count (found.map Found.unplaced)
      = (numberFrom explicit? count found).map (List.map Specifier.unplaced) := by
  induction found generalizing explicit? count with
  | nil => rfl
  | cons f found ih =>
    rw [List.map_cons, numberFrom, numberFrom]
    have hwhat : f.unplaced.what = f.what := rfl
    have htext : f.unplaced.text = f.text := rfl
    rw [hwhat, htext]
    cases f.what with
    | escaped => exact ih explicit? count
    | specifier parts =>
      dsimp only
      rw [ih]
      split
      · rfl
      · split
        · rfl
        · split
          · rfl
          · cases numberFrom (some parts.index.isSome) (count + 1) found <;> rfl

theorem scanSpecifiers_unplaced (text : String) :
    (scanSpecifiers text).map (List.map Specifier.unplaced)
      = numberFrom none 0 (unplacedInstances text.toList) :=
  (numberFrom_unplaced none 0 (instances text)).symm

theorem denseFrom_unplaced (count : Nat) (specifiers : List Specifier) :
    denseFrom count (specifiers.map Specifier.unplaced)
      = (denseFrom count specifiers).map (List.map Specifier.unplaced) := by
  induction specifiers generalizing count with
  | nil => rfl
  | cons s specifiers ih =>
    rw [List.map_cons, denseFrom, denseFrom]
    have hindex : s.unplaced.index = s.index := rfl
    rw [hindex, ih count, ih (count + 1)]
    split
    · rfl
    · split
      · cases denseFrom (count + 1) specifiers <;> rfl
      · rfl

theorem denseArguments_unplaced (specifiers : List Specifier) :
    denseArguments (specifiers.map Specifier.unplaced)
      = (denseArguments specifiers).map (List.map Specifier.unplaced) := by
  rw [denseArguments, denseArguments, ← denseFrom_unplaced]
  exact congrArg (denseFrom 0)
    (List.map_mergeSort (f := Specifier.unplaced) fun _ _ _ _ => rfl).symm

/-- The types of the arguments of specifiers. -/
def typesOf (specifiers : List Specifier) : Except SpecifierError (List ParamType) :=
  denseArguments specifiers >>= List.mapM Specifier.type

theorem typesOf_unplaced (specifiers : List Specifier) :
    typesOf (specifiers.map Specifier.unplaced) = typesOf specifiers := by
  rw [typesOf, typesOf, denseArguments_unplaced]
  cases denseArguments specifiers with
  | error e => rfl
  | ok resolved => exact List.mapM_map

theorem argumentTypes_eq (text : String) :
    argumentTypes text
      = (scanSpecifiers text).bind fun specifiers => (typesOf specifiers).mapError .rejected := by
  rw [argumentTypes, parseSpecifiers]
  cases scanSpecifiers text with
  | error e => rfl
  | ok specifiers =>
    simp only [Except.bind, typesOf]
    cases denseArguments specifiers <;> rfl

/-- The types of the arguments do not depend on where the specifiers are. -/
theorem argumentTypes_congr {text text' : String}
    (h : (scanSpecifiers text).map (List.map Specifier.unplaced)
      = (scanSpecifiers text').map (List.map Specifier.unplaced)) :
    argumentTypes text = argumentTypes text' := by
  have hunplaced : ∀ text, argumentTypes text
      = ((scanSpecifiers text).map (List.map Specifier.unplaced)).bind fun specifiers =>
        (typesOf specifiers).mapError .rejected := by
    intro text
    rw [argumentTypes_eq]
    cases scanSpecifiers text with
    | error e => rfl
    | ok specifiers => simp only [Except.map, Except.bind, typesOf_unplaced]
  rw [hunplaced, h, ← hunplaced]

end LocalizedKeys.Format

namespace LocalizedKeys.Swift

open Format

/-! ## Replacing escapes -/

/-- The characters behind backslashes that begin an escape. -/
def escapedChars : List Char → List Char
  | '\\' :: c :: rest => c :: escapedChars rest
  | _ :: rest => escapedChars rest
  | [] => []

theorem escapedChars_of_ne {c : Char} (h : c ≠ '\\') (cs : List Char) :
    escapedChars (c :: cs) = escapedChars cs := by
  rw [escapedChars]
  exact fun _ _ hc => absurd hc h

theorem escapedChars_append {b : List Char} (hb : Body b) (cs : List Char) :
    escapedChars (b ++ cs) = escapedChars b ++ escapedChars cs := by
  induction hb with
  | nil => rfl
  | plain hc _ ih =>
    rw [List.cons_append, escapedChars_of_ne hc.2.1, escapedChars_of_ne hc.2.1, ih]
  | escape _ _ _ ih => simp only [List.cons_append, escapedChars, ih]

/-- Two texts begin with the same run of characters of instances, and have the same instances
behind it. -/
structure Alike (x y : List Char) : Prop where
  run : x.takeWhile isInstanceChar = y.takeWhile isInstanceChar
  behind : unplacedInstances (x.dropWhile isInstanceChar)
    = unplacedInstances (y.dropWhile isInstanceChar)

variable {x y : List Char}

theorem unplacedInstances_eq (x : List Char) :
    unplacedInstances x = unplacedInstances (x.takeWhile isInstanceChar)
      ++ unplacedInstances (x.dropWhile isInstanceChar) := by
  rw [← unplacedInstances_append, List.takeWhile_append_dropWhile]
  · exact fun c hc => List.all_eq_true.1 List.all_takeWhile c hc
  · intro c hc
    have hhead := List.head?_dropWhile_not isInstanceChar x
    rw [Option.mem_def.1 hc] at hhead
    simpa using hhead

theorem Alike.instances_eq (h : Alike x y) : unplacedInstances x = unplacedInstances y := by
  rw [unplacedInstances_eq x, unplacedInstances_eq y, h.run, h.behind]

theorem Alike.cons (h : Alike x y) (c : Char) : Alike (c :: x) (c :: y) := by
  cases hc : isInstanceChar c with
  | true => exact ⟨by simp [hc, h.run], by simpa [hc] using h.behind⟩
  | false =>
    have hne : c ≠ '%' := by
      rintro rfl
      exact absurd hc (by decide)
    -- the runs are empty, and both texts stand behind them as a whole
    refine ⟨by simp [hc], ?_⟩
    rw [List.dropWhile_cons_of_neg (by simp [hc]), List.dropWhile_cons_of_neg (by simp [hc]),
      unplacedInstances_cons_of_ne hne, unplacedInstances_cons_of_ne hne, h.instances_eq]

/-- What an escape stands for is in no instance, unless it is an apostrophe. -/
theorem not_isInstanceChar_of_escapeValue? {c value : Char} (h : escapeValue? c = some value)
    (hc : c ≠ '\'') : isInstanceChar value = false := by
  have hall : ['0', '\\', 't', 'n', 'r', '"'].all (fun c =>
      (escapeValue? c).all fun value => !isInstanceChar value) = true := by decide
  have hmem : c ∈ ['0', '\\', 't', 'n', 'r', '"'] := by
    by_contra hnot
    simp only [List.mem_cons, List.not_mem_nil, or_false, not_or] at hnot
    simp [escapeValue?, hnot, hc] at h
  simpa [h] using List.all_eq_true.1 hall c hmem

theorem Alike.escape (h : Alike x y) {c value : Char} (hvalue : escapeValue? c = some value)
    (hc : c ≠ '\'') : Alike ('\\' :: c :: x) (value :: y) := by
  have hbackslash : isInstanceChar '\\' = false := by decide
  have hno := not_isInstanceChar_of_escapeValue? hvalue hc
  have hvalueNe : value ≠ '%' := by
    rintro rfl
    exact absurd hno (by decide)
  have hcNe : c ≠ '%' := by
    rintro rfl
    simp [escapeValue?] at hvalue
  refine ⟨by simp [hbackslash, hno], ?_⟩
  rw [List.dropWhile_cons_of_neg (by simp [hbackslash]), List.dropWhile_cons_of_neg (by simp [hno]),
    unplacedInstances_cons_of_ne (by decide), unplacedInstances_cons_of_ne hcNe,
    unplacedInstances_cons_of_ne hvalueNe, h.instances_eq]

/-- The rest of a literal is like the rest of its value. -/
theorem Alike.of_body {b : List Char} (hb : Body b)
    (hescapes : ∀ c ∈ escapedChars b, c ≠ 'u' ∧ c ≠ '\'') :
    Alike (b ++ ['"']) (unescape b) := by
  -- from the end: each step puts the same character in front of both, or an escape and its value
  induction hb with
  | nil =>
    have hquote : isInstanceChar '"' = false := by decide
    refine ⟨by simp [hquote, unescape_nil], ?_⟩
    rw [unescape_nil, List.nil_append, List.dropWhile_cons_of_neg (by simp [hquote]),
      unplacedInstances_cons_of_ne (by decide)]
    rfl
  | @plain c r hc _ ih =>
    rw [escapedChars_of_ne hc.2.1] at hescapes
    rw [List.cons_append, unescape_plain hc.2.1]
    exact (ih hescapes).cons c
  | @escape c r _ hend _ ih =>
    rw [escapedChars, List.forall_mem_cons] at hescapes
    obtain ⟨⟨hu, hapostrophe⟩, hrest⟩ := hescapes
    rw [List.cons_append, List.cons_append]
    cases hvalue : escapeValue? c with
    | some value =>
      rw [unescape_single hvalue]
      exact (ih hrest).escape hvalue hapostrophe
    | none =>
      -- the backslash stays, and the character behind it begins no other escape
      have hne : c ≠ '\\' := by
        rintro rfl
        exact absurd hvalue (by decide)
      have hline : c ≠ '\n' := by
        rintro rfl
        exact absurd hend (by decide)
      rw [unescape_unknown hvalue hline hu, unescape_plain hne]
      exact ((ih hrest).cons c).cons '\\'

theorem scanSpecifiers_decodeLiteral {raw : String} (hraw : isSimpleLiteral raw = true)
    (hescapes : ∀ c ∈ escapedChars raw.toList, c ≠ 'u' ∧ c ≠ '\'') :
    (scanSpecifiers (decodeLiteral raw)).map (List.map Specifier.unplaced)
      = (scanSpecifiers raw).map (List.map Specifier.unplaced) := by
  obtain ⟨b, htext, hb⟩ := isSimpleLiteral_iff.1 hraw
  have hbody : ∀ c ∈ escapedChars b, c ≠ 'u' ∧ c ≠ '\'' := by
    rw [htext, escapedChars_of_ne (by decide), escapedChars_append hb] at hescapes
    exact fun c hc => hescapes c (List.mem_append_left _ hc)
  rw [scanSpecifiers_unplaced, scanSpecifiers_unplaced, decodeLiteral_of_toList htext hb,
    String.toList_ofList, htext, unplacedInstances_cons_of_ne (by decide),
    (Alike.of_body hb hbody).instances_eq]

end LocalizedKeys.Swift

namespace LocalizedKeys.Expansion

open Swift Format

/-- The types of the parameters of a member; a constant has none. -/
def Member.parameters : Member → List ParamType
  | constant _ _ => []
  | function _ _ parameters => parameters

theorem Becomes.parameters_eq {options : Options} {request : Request} {element : CaseElement}
    {member : Member} (h : Becomes options request element member) :
    argumentTypes (defaultValue element) = .ok member.parameters := by
  cases h with
  | constant htakes => exact htakes
  | function htakes _ => exact htakes

/-- **A literal and the text it stands for have the same specifiers.** So a member has the
parameters that its text in a catalog formats. -/
theorem template_of_literal {raw : String} (hraw : isSimpleLiteral raw = true)
    (hescapes : ∀ c ∈ escapedChars raw.toList, c ≠ 'u' ∧ c ≠ '\'') :
    (scanSpecifiers raw).map (List.map Specifier.unplaced)
        = (scanSpecifiers (decodeLiteral raw)).map (List.map Specifier.unplaced) ∧
      argumentTypes raw = argumentTypes (decodeLiteral raw) ∧
      ∀ request options name span member,
        synthesizeCase request options ⟨name, some raw, span⟩ = .ok member →
          (Catalog.entryOf member).value = decodeLiteral raw ∧
            argumentTypes (Catalog.entryOf member).value = .ok member.parameters := by
  have hscan := scanSpecifiers_decodeLiteral hraw hescapes
  have htypes := argumentTypes_congr hscan
  refine ⟨hscan.symm, htypes.symm, fun request options name span member hmember => ?_⟩
  have hbecomes := becomes_of_synthesizeCase hmember
  have hvalue : (Catalog.entryOf member).value = decodeLiteral raw := by
    rw [Catalog.entryOf, hbecomes.lookup_eq]
    rfl
  exact ⟨hvalue, hvalue ▸ htypes.trans hbecomes.parameters_eq⟩

/-- Escapes in front of specifiers and behind them, one of which is not known. -/
def escapedTemplate : String := "\"\\n%2$ld\\\\%1$@\\%\\\"\""

theorem template_of_literal_escaped :
    ∃ member, synthesizeCase {} {} ⟨"a", some escapedTemplate, ⟨0, 0⟩⟩ = .ok member ∧
      (Catalog.entryOf member).value = "\n%2$ld\\%1$@\\%\"" ∧
      argumentTypes (Catalog.entryOf member).value = .ok [.string, .int] := by
  have hscan : scanSpecifiers escapedTemplate = .ok
      [⟨"%2$ld", 2, true, "l", 'd', 3⟩, ⟨"%1$@", 1, true, "", '@', 10⟩] := by decide +kernel
  have hresolved : denseArguments
      [⟨"%2$ld", 2, true, "l", 'd', 3⟩, ⟨"%1$@", 1, true, "", '@', 10⟩] = .ok
      [⟨"%1$@", 1, true, "", '@', 10⟩, ⟨"%2$ld", 2, true, "l", 'd', 3⟩] := by
    simp [denseArguments, List.mergeSort, List.MergeSort.Internal.splitInTwo, denseFrom]
  have htypes : argumentTypes escapedTemplate = .ok [.string, .int] := by
    rw [argumentTypes, parseSpecifiers, hscan]
    dsimp only
    rw [hresolved]
    decide +kernel
  have hmade : synthesizeCase {} {} ⟨"a", some escapedTemplate, ⟨0, 0⟩⟩ = .ok (.function "a"
      { key := "\"a\"", defaultValue := escapedTemplate } [.string, .int]) := by
    have hdefault : argumentTypes (defaultValue ⟨"a", some escapedTemplate, ⟨0, 0⟩⟩)
        = .ok [.string, .int] := htypes
    rw [synthesizeCase, hdefault]
    decide +kernel
  obtain ⟨-, -, hmember⟩ := @template_of_literal escapedTemplate (by decide +kernel)
    (by decide +kernel)
  obtain ⟨hvalue, hparameters⟩ := hmember _ _ _ _ _ hmade
  exact ⟨_, hmade, hvalue.trans (by decide +kernel), hparameters⟩

end LocalizedKeys.Expansion
