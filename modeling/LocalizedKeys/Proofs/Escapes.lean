import LocalizedKeys.Proofs.Bodies
import Mathlib.Data.Nat.Digits.Defs

/-!
# Spelling a text in a literal

The body of a literal is spelled item by item: a character that stands for itself, a backslash and a
letter, or the number of a scalar in hexadecimal digits. Every item has a value of its own, and the
value of a literal is that of its items in a row (`decodeLiteral_items`): no item runs into the next
one, whatever that is. What matters for this is that the decoder, at the front of an item, takes
exactly this item and leaves the rest to the next round (`Item.unescape_append`).

So every text can be put into a literal and is got back from it, with escapes only where a character
cannot stand for itself (`Item.short`), and also with the number of each of its characters
(`Item.numbered`).
-/

namespace LocalizedKeys.Swift

/-! ## Escapes of single characters -/

/-- A character that has an escape of its own. -/
inductive Escape where
  | null
  | backslash
  | tab
  | lineFeed
  | carriageReturn
  | quote
  | apostrophe
deriving DecidableEq, Repr

namespace Escape

/-- What stands behind the backslash. -/
def letter : Escape → Char
  | null => '0'
  | backslash => '\\'
  | tab => 't'
  | lineFeed => 'n'
  | carriageReturn => 'r'
  | quote => '"'
  | apostrophe => '\''

/-- The character that is meant. -/
def value : Escape → Char
  | null => '\x00'
  | backslash => '\\'
  | tab => '\t'
  | lineFeed => '\n'
  | carriageReturn => '\r'
  | quote => '"'
  | apostrophe => '\''

theorem escapeValue?_letter (e : Escape) : escapeValue? e.letter = some e.value := by
  cases e <;> decide

end Escape

/-! ## Hexadecimal digits -/

/-- A hexadecimal digit, with a small letter or a capital one. -/
structure HexDigit where
  value : Fin 16
  capital : Bool
deriving DecidableEq, Repr

namespace HexDigit

/-- The digit as it is written. -/
def char (d : HexDigit) : Char :=
  (if d.capital then "0123456789ABCDEF" else "0123456789abcdef").toList.getD d.value '0'

theorem hexValue?_char (d : HexDigit) : hexValue? d.char = some d.value := by
  obtain ⟨value, capital⟩ := d
  revert value capital
  decide

/-- The number that digits write, the last one being the lowest. -/
def number (digits : List HexDigit) : Nat :=
  Nat.ofDigits 16 (digits.reverse.map fun d => d.value.val)

theorem hexNumber_char (digits : List HexDigit) :
    hexNumber (digits.map char) = number digits := by
  rw [hexNumber, List.foldl_map, number, Nat.ofDigits_eq_foldr, List.foldr_map,
    List.foldr_reverse]
  congr 1
  funext n d
  rw [hexValue?_char]
  exact Nat.add_comm _ _

theorem number_append (digits : List HexDigit) (d : HexDigit) :
    number (digits ++ [d]) = 16 * number digits + d.value := by
  rw [number, List.reverse_append, List.reverse_singleton, List.singleton_append, List.map_cons,
    Nat.ofDigits_cons, Nat.add_comm]
  rfl

/-- The last `width` digits of a number, in small letters. -/
def digits : (width n : Nat) → List HexDigit
  | 0, _ => []
  | width + 1, n => digits width (n / 16) ++ [⟨Fin.ofNat 16 n, false⟩]

theorem length_digits (width n : Nat) : (digits width n).length = width := by
  induction width generalizing n with
  | zero => rfl
  | succ width ih => rw [digits, List.length_append, ih, List.length_singleton]

theorem number_digits {width n : Nat} (h : n < 16 ^ width) : number (digits width n) = n := by
  induction width generalizing n with
  | zero =>
    obtain rfl : n = 0 := by simpa using h
    rfl
  | succ width ih =>
    have hhigh : n / 16 < 16 ^ width := Nat.div_lt_of_lt_mul (by rwa [Nat.pow_succ'] at h)
    rw [digits, number_append, ih hhigh]
    exact Nat.div_add_mod n 16

end HexDigit

/-! ## Items -/

/-- A piece of the body of a literal. -/
inductive Item where
  | plain (c : Char) (verbatim : IsVerbatim c)
  | escape (e : Escape)
  | scalar (digits : List HexDigit) (length : 1 ≤ digits.length ∧ digits.length ≤ 8)

namespace Item

/-- How an item is written. -/
def spelled : Item → List Char
  | plain c _ => [c]
  | escape e => ['\\', e.letter]
  | scalar digits _ => '\\' :: 'u' :: '{' :: (digits.map HexDigit.char ++ ['}'])

/-- The text that an item stands for. A number that no scalar has stays as it is written. -/
def value (item : Item) : List Char :=
  match item with
  | plain c _ => [c]
  | escape e => [e.value]
  | scalar digits _ =>
    if (HexDigit.number digits).isValidChar then [Char.ofNat (HexDigit.number digits)]
    else item.spelled

theorem isScalar_iff {n : Nat} : isScalar n = true ↔ n.isValidChar := by
  simp only [isScalar, Nat.isValidChar, Bool.or_eq_true, Bool.and_eq_true, decide_eq_true_eq]
  omega

theorem scalarText_char (digits : List HexDigit)
    (length : 1 ≤ digits.length ∧ digits.length ≤ 8) :
    scalarText (digits.map HexDigit.char) = (scalar digits length).value := by
  rw [scalarText, HexDigit.hexNumber_char, value]
  by_cases h : (HexDigit.number digits).isValidChar
  · rw [if_pos (isScalar_iff.2 h), if_pos h]
  · rw [if_neg fun hscalar => h (isScalar_iff.1 hscalar), if_neg h, spelled]

theorem spelled_scalar_append (digits : List HexDigit)
    (length : 1 ≤ digits.length ∧ digits.length ≤ 8) (r : List Char) :
    (scalar digits length).spelled ++ r
      = '\\' :: 'u' :: '{' :: (digits.map HexDigit.char ++ '}' :: r) := by
  rw [spelled, List.cons_append, List.cons_append, List.cons_append, List.append_assoc,
    List.singleton_append]

theorem isSome_hexValue? {digits : List HexDigit} :
    ∀ c ∈ digits.map HexDigit.char, (hexValue? c).isSome = true := by
  intro c hc
  obtain ⟨d, -, rfl⟩ := List.mem_map.1 hc
  rw [HexDigit.hexValue?_char]
  rfl

theorem wellEscaped_append (item : Item) {r : List Char} (h : WellEscaped r) :
    WellEscaped (item.spelled ++ r) := by
  cases item with
  | plain c verbatim => exact .plain verbatim h
  | escape e => exact .single (by rw [e.escapeValue?_letter]; rfl) h
  | scalar digits length =>
    rw [spelled_scalar_append]
    exact .scalar (by simpa using length.1) (by simpa using length.2) isSome_hexValue? h

/-- At the front of an item the decoder takes the item and nothing else. -/
theorem unescape_append (item : Item) (r : List Char) :
    unescape (item.spelled ++ r) = item.value ++ unescape r := by
  cases item with
  | plain c verbatim => exact unescape_plain verbatim.2.1 r
  | escape e => exact unescape_single e.escapeValue?_letter r
  | scalar digits length =>
    rw [spelled_scalar_append, ← scalarText_char digits length]
    exact unescape_scalar (by simpa using length.1) (by simpa using length.2) isSome_hexValue? r

/-! ## Items for a character -/

/-- The character itself, or its escape where it cannot stand for itself. -/
def short (c : Char) : Item :=
  if verbatim : IsVerbatim c then .plain c verbatim
  else if c = '"' then .escape .quote
  else if c = '\\' then .escape .backslash
  else if c = '\n' then .escape .lineFeed
  else .escape .carriageReturn

theorem value_short (c : Char) : (short c).value = [c] := by
  unfold short
  split_ifs with hverbatim hquote hbackslash hn
  · rfl
  · rw [hquote]
    rfl
  · rw [hbackslash]
    rfl
  · rw [hn]
    rfl
  · -- no other character is left that does not stand for itself
    have hr : c = '\r' := Classical.byContradiction fun hr =>
      hverbatim (isVerbatim_of_ne hquote hbackslash hn hr)
    rw [hr]
    rfl

/-- The number of the character, in eight digits. -/
def numbered (c : Char) : Item :=
  .scalar (HexDigit.digits 8 c.toNat) (by rw [HexDigit.length_digits]; decide)

theorem value_numbered (c : Char) : (numbered c).value = [c] := by
  have hvalid : c.toNat.isValidChar := c.valid
  have hlt : c.toNat < 16 ^ 8 := by
    unfold Nat.isValidChar at hvalid
    omega
  rw [numbered, value, HexDigit.number_digits hlt, if_pos hvalid, Char.ofNat_toNat]

end Item

/-! ## Literals -/

/-- The literal that is spelled by items. -/
def literalOf (items : List Item) : String :=
  quote (String.ofList (items.flatMap Item.spelled))

theorem wellEscaped_items (items : List Item) : WellEscaped (items.flatMap Item.spelled) := by
  induction items with
  | nil => exact .nil
  | cons item items ih => exact item.wellEscaped_append ih

theorem unescape_items (items : List Item) :
    unescape (items.flatMap Item.spelled) = items.flatMap Item.value := by
  induction items with
  | nil => exact unescape_nil
  | cons item items ih =>
    rw [List.flatMap_cons, List.flatMap_cons, item.unescape_append, ih]

theorem decodeLiteral_literalOf (items : List Item) :
    decodeLiteral (literalOf items) = String.ofList (items.flatMap Item.value) := by
  have hbody : Body (String.ofList (items.flatMap Item.spelled)).toList := by
    rw [String.toList_ofList]
    exact (wellEscaped_items items).body
  rw [literalOf, decodeLiteral_quote hbody, String.toList_ofList, unescape_items]

/-- A text comes back from every spelling that has an item for each of its characters. -/
theorem decodeLiteral_spelling {item : Char → Item} (h : ∀ c, (item c).value = [c])
    (text : String) : decodeLiteral (literalOf (text.toList.map item)) = text := by
  rw [decodeLiteral_literalOf, List.flatMap_map]
  simp only [h, List.flatMap_singleton', String.ofList_toList]

/-- **Literals are decoded item by item**, and every text is the value of a literal that spells it. -/
theorem decodeLiteral_items (items : List Item) :
    isSimpleLiteral (literalOf items) = true ∧
      decodeLiteral (literalOf items) = String.ofList (items.flatMap Item.value) ∧
      ∀ text : String, decodeLiteral (literalOf (text.toList.map Item.short)) = text ∧
        decodeLiteral (literalOf (text.toList.map Item.numbered)) = text := by
  refine ⟨?_, decodeLiteral_literalOf items, fun text => ?_⟩
  · rw [literalOf, isSimpleLiteral_quote_iff, String.toList_ofList]
    exact (wellEscaped_items items).body
  · exact ⟨decodeLiteral_spelling Item.value_short text,
      decodeLiteral_spelling Item.value_numbered text⟩

/-- A backslash that is escaped leaves what follows it alone. -/
example : decodeLiteral (literalOf [.escape .backslash, .plain 'n' (by decide),
    .escape .backslash, .plain 'u' (by decide), .plain '{' (by decide), .scalar [⟨4, false⟩]
      (by decide), .plain '}' (by decide)]) = "\\n\\u\x7b\x04\x7d" := by
  decide +kernel

end LocalizedKeys.Swift
