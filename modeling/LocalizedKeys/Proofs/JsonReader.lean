import LocalizedKeys.Catalog.Sorted
import LocalizedKeys.Swift.Literal
import LocalizedKeys.Text.Blank
import LocalizedKeys.Text.Json
import LocalizedKeys.Text.Lines
import Mathlib.Data.List.Forall2
import Mathlib.Tactic.SplitIfs

/-!
# Reading JSON

What is written as JSON on one line is read back. Reading goes in two steps: a text is cut into
tokens, with white space allowed between them, and the tokens are put together with a stack of the
objects that are open. All spellings of JSON are read, as far as it has values here: a character of
a text can stand for itself, or be written by a letter behind a backslash, or by one or two units of
sixteen bits in hexadecimal digits.

`read?_line` says that a value which was written is the one that is read. What is written has no
line feed in it (`lineFeed_notMem_line`): those in texts are escaped. In a value that was read,
fields are found by their names (`field?`, `at?`).
-/

namespace LocalizedKeys.Text.Json

open Catalog
open Swift (hexValue? hexNumber)

/-! ## Texts -/

/-- What stands for a character behind a backslash. -/
def letterValue? (c : Char) : Option Char :=
  match c with
  | '"' => some '"'
  | '\\' => some '\\'
  | '/' => some '/'
  | 'b' => some '\x08'
  | 'f' => some '\x0c'
  | 'n' => some '\n'
  | 'r' => some '\r'
  | 't' => some '\t'
  | _ => none

/-- The unit that four hexadecimal digits write. -/
def unit? (digits : List Char) : Option Nat :=
  if digits.all fun c => (hexValue? c).isSome then some (hexNumber digits) else none

/-- The inside of a text up to its closing quote, and what follows. Each character is given by its
number, each escape by the unit it writes. -/
def readUnits : List Char → Option (List Nat × List Char)
  | [] => none
  | c :: rest =>
    if c = '"' then some ([], rest)
    else if c = '\\' then
      match rest with
      | 'u' :: d₁ :: d₂ :: d₃ :: d₄ :: rest =>
        (unit? [d₁, d₂, d₃, d₄]).bind fun unit => (readUnits rest).map (Prod.map (unit :: ·) id)
      | letter :: rest =>
        (letterValue? letter).bind fun value =>
          (readUnits rest).map (Prod.map (value.toNat :: ·) id)
      | [] => none
    else if c.toNat < 0x20 then none
    else (readUnits rest).map (Prod.map (c.toNat :: ·) id)

/-- The characters of units: two surrogates in a row are one character, and one alone is none. -/
def ofUnits? : List Nat → Option (List Char)
  | [] => some []
  | n :: rest =>
    if n.isValidChar then (ofUnits? rest).map (Char.ofNat n :: ·)
    else
      match rest with
      | m :: rest =>
        if n < 0xDC00 ∧ 0xDC00 ≤ m ∧ m < 0xE000 then
          (ofUnits? rest).map (Char.ofNat (0x10000 + (n - 0xD800) * 0x400 + (m - 0xDC00)) :: ·)
        else none
      | [] => none

/-- A text behind its opening quote, and what follows. -/
def readText (cs : List Char) : Option (String × List Char) := do
  let (units, rest) ← readUnits cs
  let value ← ofUnits? units
  some (String.ofList value, rest)

/-! ## Numbers -/

/-- A natural number, and what follows. There are no zeros in front. -/
def readNatural (cs : List Char) : Option (Nat × List Char) :=
  let digits := cs.takeWhile Char.isDigit
  let value := Nat.ofDigitChars 10 digits 0
  if Nat.toDigits 10 value = digits then some (value, cs.dropWhile Char.isDigit) else none

/-- A whole number, and what follows. -/
def readNumber : List Char → Option (Int × List Char)
  | [] => none
  | c :: rest =>
    if c = '-' then (readNatural rest).map fun (n, rest) => (-(n : Int), rest)
    else (readNatural (c :: rest)).map fun (n, rest) => ((n : Int), rest)

/-! ## Tokens -/

/-- The smallest parts of a JSON text that mean something. -/
inductive Token where
  | opening
  | closing
  | colon
  | comma
  | text (value : String)
  | number (value : Int)
deriving DecidableEq, Repr

/-- The token that a character is by itself. -/
def symbol? (c : Char) : Option Token :=
  match c with
  | '\x7b' => some .opening
  | '\x7d' => some .closing
  | ':' => some .colon
  | ',' => some .comma
  | _ => none

/-- The token that begins with a character, and what follows. -/
def token? (c : Char) (rest : List Char) : Option (Token × List Char) :=
  match symbol? c with
  | some token => some (token, rest)
  | none =>
    if c = '"' then (readText rest).map fun (value, rest) => (.text value, rest)
    else (readNumber (c :: rest)).map fun (value, rest) => (.number value, rest)

/-- What was read can be changed without changing what follows. -/
theorem exists_of_map_eq_some {α β : Type} {read : Option (α × List Char)}
    {f : α × List Char → β × List Char} {b : β} {rest : List Char}
    (h : read.map f = some (b, rest)) (hf : ∀ p, (f p).2 = p.2) : ∃ a, read = some (a, rest) := by
  obtain ⟨⟨a, rest'⟩, hread, heq⟩ := Option.map_eq_some_iff.1 h
  obtain rfl : rest' = rest := (hf (a, rest')).symm.trans (congrArg Prod.snd heq)
  exact ⟨a, hread⟩

/-- Reading on makes what follows no longer. -/
theorem readUnits_length_le {cs rest : List Char} {units : List Nat}
    (h : readUnits cs = some (units, rest)) : rest.length ≤ cs.length := by
  fun_induction readUnits cs generalizing units rest with
  | case1 => simp at h
  | case2 rest' =>
    obtain ⟨-, rfl⟩ := Prod.mk.inj (Option.some.inj h)
    simp
  | case3 d₁ d₂ d₃ d₄ rest' hquote ih =>
    obtain ⟨unit, -, h⟩ := Option.bind_eq_some_iff.1 h
    obtain ⟨units', hread⟩ := exists_of_map_eq_some h fun _ => rfl
    have := ih hread
    simp only [List.length_cons]
    omega
  | case4 letter rest' hquote hnot ih =>
    obtain ⟨value, -, h⟩ := Option.bind_eq_some_iff.1 h
    obtain ⟨units', hread⟩ := exists_of_map_eq_some h fun _ => rfl
    have := ih hread
    simp only [List.length_cons]
    omega
  | case5 => simp at h
  | case6 => simp at h
  | case7 c rest' hquote hslash hcontrol ih =>
    obtain ⟨units', hread⟩ := exists_of_map_eq_some h fun _ => rfl
    have := ih hread
    simp only [List.length_cons]
    omega

theorem readText_length_le {cs rest : List Char} {value : String}
    (h : readText cs = some (value, rest)) : rest.length ≤ cs.length := by
  simp only [readText, Option.bind_eq_bind, Option.bind_eq_some_iff] at h
  obtain ⟨⟨units, rest'⟩, hunits, value', -, heq⟩ := h
  obtain ⟨-, rfl⟩ := Prod.mk.inj (Option.some.inj heq)
  exact readUnits_length_le hunits

/-- A natural number has a digit. -/
theorem readNatural_length_lt {cs rest : List Char} {n : Nat}
    (h : readNatural cs = some (n, rest)) : rest.length < cs.length := by
  unfold readNatural at h
  dsimp only at h
  split at h
  · rename_i hdigits
    obtain ⟨-, rfl⟩ := Prod.mk.inj (Option.some.inj h)
    have hlength := congrArg List.length (@List.takeWhile_append_dropWhile _ Char.isDigit cs)
    have hpos : 0 < (cs.takeWhile Char.isDigit).length := hdigits ▸ Nat.length_toDigits_pos
    rw [List.length_append] at hlength
    omega
  · simp at h

theorem readNumber_length_lt {cs rest : List Char} {n : Int}
    (h : readNumber cs = some (n, rest)) : rest.length < cs.length := by
  cases cs with
  | nil => simp [readNumber] at h
  | cons c cs =>
    rw [readNumber] at h
    split at h
    · obtain ⟨m, hread⟩ := exists_of_map_eq_some h fun _ => rfl
      exact Nat.lt_succ_of_lt (readNatural_length_lt hread)
    · obtain ⟨m, hread⟩ := exists_of_map_eq_some h fun _ => rfl
      exact readNatural_length_lt hread

theorem token?_length_le {c : Char} {rest rest' : List Char} {token : Token}
    (h : token? c rest = some (token, rest')) : rest'.length ≤ rest.length := by
  unfold token? at h
  split at h
  · obtain ⟨-, rfl⟩ := Prod.mk.inj (Option.some.inj h)
    exact Nat.le_refl _
  · split at h
    · obtain ⟨value, hread⟩ := exists_of_map_eq_some h fun _ => rfl
      exact readText_length_le hread
    · obtain ⟨value, hread⟩ := exists_of_map_eq_some h fun _ => rfl
      exact Nat.le_of_lt_succ (readNumber_length_lt hread)

/-- The tokens of a text. -/
def tokens? : List Char → Option (List Token)
  | [] => some []
  | c :: rest =>
    if isLayout c then tokens? rest
    else
      match _h : token? c rest with
      | none => none
      | some (token, rest') => (tokens? rest').map (token :: ·)
termination_by cs => cs.length
decreasing_by
  · exact Nat.lt_succ_self _
  · exact Nat.lt_succ_of_le (token?_length_le _h)

/-! ## Values -/

/-- An object that is open: the fields that are read, and the name of the one that is not. -/
structure Frame where
  fields : List (String × Json)
  name : String

/-- How far a value is read, with the objects around it that are open. -/
inductive Stage where
  /-- A value has to come. -/
  | value (outer : List Frame)
  /-- The name of a field has to come, or the end of an object without any. -/
  | name (fields : List (String × Json)) (outer : List Frame)
  /-- A colon has to come. -/
  | colon (frame : Frame) (outer : List Frame)
  /-- The end of an object has to come, or another field. -/
  | more (fields : List (String × Json)) (outer : List Frame)
  /-- Nothing more may come. -/
  | done (json : Json)

/-- A value has been read. -/
def Stage.give (json : Json) : List Frame → Stage
  | [] => .done json
  | frame :: outer => .more (frame.fields ++ [(frame.name, json)]) outer

/-- What a token does. -/
def Stage.next? : Stage → Token → Option Stage
  | .value outer, .text v => some (give (.text v) outer)
  | .value outer, .number v => some (give (.number v) outer)
  | .value outer, .opening => some (.name [] outer)
  | .name fields outer, .text n => some (.colon ⟨fields, n⟩ outer)
  | .name [] outer, .closing => some (give (.object []) outer)
  | .colon frame outer, .colon => some (.value (frame :: outer))
  | .more fields outer, .comma => some (.name fields outer)
  | .more fields outer, .closing => some (give (.object fields) outer)
  | _, _ => none

/-- The value that a text is as JSON. -/
def read? (cs : List Char) : Option Json := do
  let tokens ← tokens? cs
  match ← tokens.foldlM Stage.next? (.value []) with
  | .done json => some json
  | _ => none

/-! ## Texts are read back -/

theorem ofUnits?_toNat (cs : List Char) : ofUnits? (cs.map Char.toNat) = some cs := by
  induction cs with
  | nil => rfl
  | cons c cs ih =>
    have hvalid : c.toNat.isValidChar := c.valid
    rw [List.map_cons, ofUnits?.eq_def]
    simp only [if_pos hvalid, ih, Option.map_some, Char.ofNat_toNat]

/-- Four digits are enough for a control character. -/
theorem hexadecimal_control : ∀ n < 0x20, ∃ d₁ d₂ d₃ d₄, hexadecimal 4 n = [d₁, d₂, d₃, d₄] ∧
    unit? [d₁, d₂, d₃, d₄] = some n := by
  have hall : ∀ n < 0x20, (hexadecimal 4 n).length = 4 ∧ unit? (hexadecimal 4 n) = some n := by
    decide
  intro n hn
  obtain ⟨hlength, hunit⟩ := hall n hn
  match hexadecimal 4 n, hlength, hunit with
  | [d₁, d₂, d₃, d₄], _, hunit => exact ⟨d₁, d₂, d₃, d₄, rfl, hunit⟩

/-- The end of a text. -/
theorem readUnits_quote (rest : List Char) : readUnits ('"' :: rest) = some ([], rest) := by
  rw [readUnits.eq_def]
  rfl

/-- A letter behind a backslash. -/
theorem readUnits_letter {letter c : Char} (h : letterValue? letter = some c) (rest : List Char) :
    readUnits ('\\' :: letter :: rest) = (readUnits rest).map (Prod.map (c.toNat :: ·) id) := by
  have hletter : letter ≠ 'u' := by
    rintro rfl
    simp [letterValue?] at h
  rw [readUnits, if_neg (by decide), if_pos rfl, h, Option.bind_some]
  exact fun _ _ _ _ _ heq _ => hletter heq

/-- A control character by its number. -/
theorem readUnits_control {c : Char} (h : c.toNat < 0x20) (rest : List Char) :
    readUnits ('\\' :: 'u' :: hexadecimal 4 c.toNat ++ rest)
      = (readUnits rest).map (Prod.map (c.toNat :: ·) id) := by
  obtain ⟨d₁, d₂, d₃, d₄, hdigits, hunit⟩ := hexadecimal_control _ h
  simp only [hdigits, List.cons_append, List.nil_append]
  rw [readUnits, if_neg (by decide), if_pos rfl, hunit, Option.bind_some]

/-- A character by itself. -/
theorem readUnits_plain {c : Char} (hquote : c ≠ '"') (hslash : c ≠ '\\')
    (hcontrol : ¬c.toNat < 0x20) (rest : List Char) :
    readUnits (c :: rest) = (readUnits rest).map (Prod.map (c.toNat :: ·) id) := by
  rw [readUnits.eq_def]
  simp only [hquote, hslash, hcontrol, if_false]

/-- How a character can be written, as far as it is done here. -/
inductive Spells (c : Char) : List Char → Prop
  | letter {letter : Char} : letterValue? letter = some c → Spells c ['\\', letter]
  | control : c.toNat < 0x20 → Spells c ('\\' :: 'u' :: hexadecimal 4 c.toNat)
  | plain : c ≠ '"' → c ≠ '\\' → ¬c.toNat < 0x20 → Spells c [c]

theorem spells_escapeChar (c : Char) : Spells c (escapeChar c) := by
  unfold escapeChar
  split_ifs with hquote hslash hfeed hreturn htab hback hform hcontrol
  · rw [hquote]
    exact .letter rfl
  · rw [hslash]
    exact .letter rfl
  · rw [hfeed]
    exact .letter rfl
  · rw [hreturn]
    exact .letter rfl
  · rw [htab]
    exact .letter rfl
  · rw [hback]
    exact .letter rfl
  · rw [hform]
    exact .letter rfl
  · exact .control hcontrol
  · exact .plain hquote hslash hcontrol

/-- However a character is written, it is read as its number. -/
theorem Spells.readUnits {c : Char} {cs : List Char} (h : Spells c cs) (rest : List Char) :
    readUnits (cs ++ rest) = (readUnits rest).map (Prod.map (c.toNat :: ·) id) := by
  cases h with
  | letter h => exact readUnits_letter h rest
  | control h => exact readUnits_control h rest
  | plain hquote hslash hcontrol => exact readUnits_plain hquote hslash hcontrol rest

/-- A line feed is never written as itself. -/
theorem Spells.lineFeed_notMem {c : Char} {cs : List Char} (h : Spells c cs) : '\n' ∉ cs := by
  cases h with
  | @letter letter h =>
    have hletter : letter ≠ '\n' := by
      rintro rfl
      simp [letterValue?] at h
    simp [hletter.symm]
  | control h =>
    have hall : ∀ n < 0x20, '\n' ∉ hexadecimal 4 n := by decide
    simp [hall _ h]
  | plain _ _ hcontrol =>
    rw [List.mem_singleton]
    rintro rfl
    exact hcontrol (by decide)

theorem readUnits_written (cs rest : List Char) :
    Json.readUnits (cs.flatMap escapeChar ++ '"' :: rest) = some (cs.map Char.toNat, rest) := by
  induction cs with
  | nil => exact readUnits_quote rest
  | cons c cs ih =>
    rw [List.flatMap_cons, List.append_assoc, (spells_escapeChar c).readUnits, ih]
    rfl

theorem readText_written (value : String) (rest : List Char) :
    readText (value.toList.flatMap escapeChar ++ '"' :: rest) = some (value, rest) := by
  simp [readText, readUnits_written, ofUnits?_toNat]

/-! ## Numbers are read back -/

theorem readNatural_written (n : Nat) {rest : List Char}
    (hrest : ∀ c ∈ rest.head?, c.isDigit = false) :
    readNatural (Nat.toDigits 10 n ++ rest) = some (n, rest) := by
  have hdigits : ∀ c ∈ Nat.toDigits 10 n, c.isDigit = true := fun c =>
    Nat.isDigit_of_mem_toDigits (by decide) (by decide)
  have hnone : rest.takeWhile Char.isDigit = [] ∧ rest.dropWhile Char.isDigit = rest := by
    cases rest with
    | nil => simp
    | cons c rest => simp [hrest c rfl]
  rw [readNatural, List.takeWhile_append_of_pos hdigits, List.dropWhile_append_of_pos hdigits,
    hnone.1, hnone.2, List.append_nil]
  simp

/-- A number has its sign in front, if it is below zero. -/
theorem toList_number (n : Int) :
    (toString n).toList = (if n < 0 then ['-'] else []) ++ Nat.toDigits 10 n.natAbs := by
  cases n with
  | ofNat n =>
    rw [Int.toString_eq_repr, show (Int.ofNat n).repr = n.repr from rfl, Nat.toList_repr]
    simp
  | negSucc n =>
    rw [Int.toString_eq_repr, show (Int.negSucc n).repr = "-" ++ (n + 1).repr from rfl,
      String.toList_append, Nat.toList_repr, if_pos (Int.negSucc_lt_zero n)]
    rfl

theorem exists_cons_digit (n : Nat) :
    ∃ c cs, Nat.toDigits 10 n = c :: cs ∧ c.isDigit = true := by
  obtain ⟨c, cs, hcons⟩ := List.exists_cons_of_ne_nil (Nat.toDigits_ne_nil (n := n) (b := 10))
  exact ⟨c, cs, hcons,
    Nat.isDigit_of_mem_toDigits (by decide) (by decide) (hcons ▸ List.mem_cons_self)⟩

theorem readNumber_written (n : Int) {rest : List Char}
    (hrest : ∀ c ∈ rest.head?, c.isDigit = false) :
    readNumber ((toString n).toList ++ rest) = some (n, rest) := by
  have hread := readNatural_written n.natAbs hrest
  rw [toList_number]
  split
  · rw [List.singleton_append, List.cons_append, readNumber, if_pos rfl, hread, Option.map_some]
    exact congrArg (fun m => some (m, rest)) (by omega : -(n.natAbs : Int) = n)
  · obtain ⟨c, cs, hcons, hdigit⟩ := exists_cons_digit n.natAbs
    have hminus : c ≠ '-' := by
      rintro rfl
      simp at hdigit
    rw [hcons, List.cons_append] at hread
    rw [List.nil_append, hcons, List.cons_append, readNumber, if_neg hminus, hread, Option.map_some]
    exact congrArg (fun m => some (m, rest)) (by omega : (n.natAbs : Int) = n)

/-! ## Tokens are read back -/

theorem tokens?_layout {c : Char} (hc : isLayout c = true) (rest : List Char) :
    tokens? (c :: rest) = tokens? rest := by
  rw [tokens?, if_pos hc]

theorem tokens?_token {c : Char} {rest rest' : List Char} {token : Token} (hc : isLayout c = false)
    (h : token? c rest = some (token, rest')) :
    tokens? (c :: rest) = (tokens? rest').map (token :: ·) := by
  rw [tokens?, hc, if_neg Bool.false_ne_true]
  split
  · rename_i hnone
    simp [h] at hnone
  · rename_i token' rest'' hsome
    obtain ⟨rfl, rfl⟩ := Prod.mk.inj (Option.some.inj (h.symm.trans hsome))
    rfl

theorem tokens?_symbol {c : Char} {token : Token} (h : symbol? c = some token) (rest : List Char) :
    tokens? (c :: rest) = (tokens? rest).map (token :: ·) := by
  have hc : isLayout c = false := by
    unfold symbol? at h
    split at h
    · rfl
    · rfl
    · rfl
    · rfl
    · simp at h
  exact tokens?_token hc (by simp only [token?, h])

theorem tokens?_text (value : String) (rest : List Char) :
    tokens? ((writeText value).toList ++ rest) = (tokens? rest).map (.text value :: ·) := by
  have htext : (writeText value).toList ++ rest
      = '"' :: (value.toList.flatMap escapeChar ++ '"' :: rest) := by
    simp [writeText]
  rw [htext]
  refine tokens?_token rfl ?_
  rw [token?, show symbol? '"' = none from rfl]
  simp [readText_written]

/-- What a number begins with is no other token and no white space. -/
theorem token?_of_number {c : Char} (h : c = '-' ∨ c.isDigit = true) (rest : List Char) :
    isLayout c = false ∧
      token? c rest = (readNumber (c :: rest)).map fun (value, rest) => (.number value, rest) := by
  have hne : ∀ x ∈ ['\x7b', '\x7d', ':', ',', '"', ' ', '\t', '\n', '\r'], c ≠ x := by
    have hall : ∀ x ∈ ['\x7b', '\x7d', ':', ',', '"', ' ', '\t', '\n', '\r'],
        x ≠ '-' ∧ x.isDigit = false := by decide
    rintro x hx rfl
    obtain ⟨hminus, hdigit⟩ := hall c hx
    rcases h with h | h
    · exact hminus h
    · simp [hdigit] at h
  have hsymbol : symbol? c = none := by
    unfold symbol?
    split
    · exact absurd rfl (hne '\x7b' (by simp))
    · exact absurd rfl (hne '\x7d' (by simp))
    · exact absurd rfl (hne ':' (by simp))
    · exact absurd rfl (hne ',' (by simp))
    · rfl
  refine ⟨?_, ?_⟩
  · simp [isLayout, isBlank, isLineEnd, hne]
  · rw [token?, hsymbol]
    exact if_neg (hne '"' (by simp))

theorem tokens?_number (n : Int) {rest : List Char}
    (hrest : ∀ c ∈ rest.head?, c.isDigit = false) :
    tokens? ((toString n).toList ++ rest) = (tokens? rest).map (.number n :: ·) := by
  have hread := readNumber_written n hrest
  obtain ⟨c, cs, hcons, hfirst⟩ : ∃ c cs, (toString n).toList = c :: cs ∧
      (c = '-' ∨ c.isDigit = true) := by
    obtain ⟨c, cs, hcons, hdigit⟩ := exists_cons_digit n.natAbs
    rw [toList_number, hcons]
    split
    · exact ⟨_, _, rfl, .inl rfl⟩
    · exact ⟨_, _, rfl, .inr hdigit⟩
  rw [hcons, List.cons_append] at hread ⊢
  obtain ⟨hlayout, htoken⟩ := token?_of_number hfirst (cs ++ rest)
  exact tokens?_token hlayout (by rw [htoken, hread, Option.map_some])

/-- The text gives these tokens, whatever follows, unless it is a digit. -/
def Gives (cs : List Char) (ts : List Token) : Prop :=
  ∀ rest : List Char, (∀ c ∈ rest.head?, c.isDigit = false) →
    tokens? (cs ++ rest) = (tokens? rest).map (ts ++ ·)

namespace Gives

variable {cs cs' : List Char} {ts ts' : List Token}

theorem nil : Gives [] [] := fun rest _ => by simp

theorem append (h : Gives cs ts) (h' : Gives cs' ts') (hhead : ∀ c ∈ cs'.head?, c.isDigit = false) :
    Gives (cs ++ cs') (ts ++ ts') := by
  intro rest hrest
  -- if the second text is empty, the first one is followed by what follows both
  have hfirst : ∀ c ∈ (cs' ++ rest).head?, c.isDigit = false := by
    cases cs' with
    | nil => simpa using hrest
    | cons c cs' => simpa using hhead
  rw [List.append_assoc, h _ hfirst, h' rest hrest, Option.map_map]
  simp only [Function.comp_def, List.append_assoc]

theorem symbol {c : Char} {token : Token} (hc : symbol? c = some token) (h : Gives cs ts) :
    Gives (c :: cs) (token :: ts) := by
  intro rest hrest
  rw [List.cons_append, tokens?_symbol hc, h rest hrest, Option.map_map]
  rfl

theorem blank (h : Gives cs ts) : Gives (' ' :: cs) ts := by
  intro rest hrest
  rw [List.cons_append, tokens?_layout rfl, h rest hrest]

theorem text (value : String) : Gives (writeText value).toList [.text value] :=
  fun rest _ => tokens?_text value rest

theorem number (n : Int) : Gives (toString n).toList [.number n] :=
  fun _ hrest => tokens?_number n hrest

end Gives

mutual

/-- The tokens of a value. -/
def tokens : Json → List Token
  | .text value => [.text value]
  | .number value => [.number value]
  | .object fields => .opening :: ([.comma].intercalate (fieldTokens fields) ++ [.closing])

/-- The tokens of each field of an object. -/
def fieldTokens : List (String × Json) → List (List Token)
  | [] => []
  | (name, value) :: rest => (.text name :: .colon :: value.tokens) :: fieldTokens rest

end

/-- Texts with commas between them give tokens with commas between them. -/
theorem Gives.intercalate {texts : List String} {ts : List (List Token)}
    (h : List.Forall₂ (fun text t => Gives text.toList t) texts ts) :
    Gives (", ".intercalate texts).toList ([Token.comma].intercalate ts) := by
  induction h with
  | nil => exact .nil
  | @cons text t texts ts hfirst hrest ih =>
    cases hrest with
    | nil => simpa using hfirst
    | cons hnext hrest =>
      rw [String.intercalate_cons_cons, List.intercalate_cons_cons, String.toList_append,
        String.toList_append, List.append_assoc, List.append_assoc]
      exact hfirst.append (.symbol rfl (.blank ih)) (by simp)

mutual

theorem gives_line (json : Json) : Gives json.line.toList json.tokens := by
  cases json with
  | text value =>
    rw [line, tokens]
    exact .text value
  | number value =>
    rw [line, tokens]
    exact .number value
  | object fields =>
    have hfields := Gives.intercalate (gives_lineFields fields)
    rw [line, tokens, String.toList_append, String.toList_append, List.append_assoc]
    exact .symbol rfl (hfields.append (.symbol rfl .nil) (by simp))

theorem gives_lineFields (fields : List (String × Json)) :
    List.Forall₂ (fun text ts => Gives text.toList ts) (lineFields fields)
      (fieldTokens fields) := by
  match fields with
  | [] =>
    rw [lineFields, fieldTokens]
    exact .nil
  | (name, value) :: rest =>
    rw [lineFields, fieldTokens]
    refine .cons ?_ (gives_lineFields rest)
    rw [String.toList_append, String.toList_append, List.append_assoc]
    exact (Gives.text name).append (.symbol rfl (.blank (gives_line value))) (by simp)

end

/-! ## Values are read back -/

theorem foldlM_field {name : String} {value : Json} {before : List (String × Json)}
    {outer : List Frame}
    (hvalue : value.tokens.foldlM Stage.next? (.value (⟨before, name⟩ :: outer))
      = some (.give value (⟨before, name⟩ :: outer))) (more : List Token) :
    ((.text name :: .colon :: value.tokens) ++ more).foldlM Stage.next? (.name before outer)
      = more.foldlM Stage.next? (.more (before ++ [(name, value)]) outer) := by
  rw [List.foldlM_append]
  show (value.tokens.foldlM Stage.next? (.value (⟨before, name⟩ :: outer))).bind _ = _
  rw [hvalue]
  rfl

mutual

/-- The tokens of a value give the value to what it stands in. -/
theorem foldlM_tokens (json : Json) (outer : List Frame) :
    json.tokens.foldlM Stage.next? (.value outer) = some (.give json outer) := by
  match json with
  | .text value => rfl
  | .number value => rfl
  | .object [] => rfl
  | .object (field :: rest) =>
    rw [tokens, List.foldlM_cons]
    exact foldlM_fieldTokens (field :: rest) [] outer (List.cons_ne_nil _ _)

/-- Behind some fields, those that follow are added to them. -/
theorem foldlM_fieldTokens (fields before : List (String × Json)) (outer : List Frame)
    (hfields : fields ≠ []) :
    ([Token.comma].intercalate (fieldTokens fields) ++ [Token.closing]).foldlM Stage.next?
      (.name before outer) = some (.give (.object (before ++ fields)) outer) := by
  match fields with
  | [(name, value)] =>
    have hvalue := foldlM_tokens value (⟨before, name⟩ :: outer)
    rw [fieldTokens, fieldTokens, List.intercalate_singleton, foldlM_field hvalue]
    rfl
  | (name, value) :: next :: rest =>
    -- behind the comma this field is one of those before
    have hvalue := foldlM_tokens value (⟨before, name⟩ :: outer)
    have hrest := foldlM_fieldTokens (next :: rest) (before ++ [(name, value)]) outer
      (List.cons_ne_nil _ _)
    have hne : fieldTokens (next :: rest) ≠ [] := by
      rw [fieldTokens]
      exact List.cons_ne_nil _ _
    rw [List.append_assoc, List.singleton_append] at hrest
    rw [fieldTokens, List.intercalate_cons_of_ne_nil hne, List.append_assoc, List.append_assoc,
      foldlM_field hvalue]
    exact hrest

end

/-- **What is written on a line is read back.** -/
theorem read?_line (json : Json) : read? json.line.toList = some json := by
  have htokens : tokens? json.line.toList = some json.tokens := by
    have h := gives_line json [] (by simp)
    rw [List.append_nil, tokens?] at h
    simpa using h
  rw [read?, htokens]
  simp [foldlM_tokens, Stage.give]

theorem lineFeed_notMem_writeText (value : String) : '\n' ∉ (writeText value).toList := by
  have hchars : '\n' ∉ value.toList.flatMap escapeChar := fun hmem => by
    obtain ⟨c, -, hc⟩ := List.mem_flatMap.1 hmem
    exact (spells_escapeChar c).lineFeed_notMem hc
  simp [writeText, hchars]

mutual

/-- There is no line feed in a line. -/
theorem lineFeed_notMem_line (json : Json) : '\n' ∉ json.line.toList := by
  match json with
  | .text value =>
    rw [line]
    exact lineFeed_notMem_writeText value
  | .number value =>
    rw [line, toList_number]
    have hdigits : '\n' ∉ Nat.toDigits 10 value.natAbs := fun hmem => by
      have := Nat.isDigit_of_mem_toDigits (by decide) (by decide) hmem
      simp at this
    split <;> simp [hdigits]
  | .object fields =>
    have hfields := lineFeed_notMem_lineFields fields
    rw [line, String.toList_append, String.toList_append, String.toList_intercalate,
      intercalate_eq_join, List.mem_append, List.mem_append]
    rintro ((hmem | hmem) | hmem)
    · simp at hmem
    · rcases mem_join hmem with hmem | ⟨cs, hcs, hmem⟩
      · simp at hmem
      · obtain ⟨text, htext, rfl⟩ := List.mem_map.1 hcs
        exact hfields text htext hmem
    · simp at hmem

theorem lineFeed_notMem_lineFields (fields : List (String × Json)) :
    ∀ text ∈ lineFields fields, '\n' ∉ text.toList := by
  match fields with
  | [] => simp [lineFields]
  | (name, value) :: rest =>
    rw [lineFields, List.forall_mem_cons]
    refine ⟨?_, lineFeed_notMem_lineFields rest⟩
    have hname := lineFeed_notMem_writeText name
    have hvalue := lineFeed_notMem_line value
    simp [hname, hvalue]

end

/-! ## Fields -/

/-- The first field of an object with a name. -/
def field? (name : String) : Json → Option Json
  | .object fields => Sorted.get? name fields
  | .text _ => none
  | .number _ => none

/-- What is found along the names of fields. -/
def at? : List String → Json → Option Json
  | [], value => some value
  | name :: path, value => (value.field? name).bind (at? path)

theorem at?_cons (name : String) (path : List String) (fields : List (String × Json)) :
    (Json.object fields).at? (name :: path) = (Sorted.get? name fields).bind (at? path) := rfl

/-- The text that a value is. -/
def text? : Json → Option String
  | .text value => some value
  | _ => none

/-- The natural number that a value is. -/
def natural? : Json → Option Nat
  | .number value => value.toNat?
  | _ => none

@[simp]
theorem natural?_natCast (n : Nat) : natural? (.number n) = some n := rfl

@[simp]
theorem bind_text? (value : Option String) : (value.map Json.text).bind text? = value := by
  cases value <;> rfl

/-- The text that an object has in a field. -/
def textAt? (name : String) (json : Json) : Option String := (json.field? name).bind text?

/-- The natural number that an object has in a field. -/
def naturalAt? (name : String) (json : Json) : Option Nat := (json.field? name).bind natural?

end LocalizedKeys.Text.Json
